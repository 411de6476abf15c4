import Flowchart.Proofs.Drawing.Sketch

/-!
# Every statement is drawn as a fragment

`Visit.Drawn` is what drawing a statement does, as seen from outside: its segment, the place of
each of its blocks, and which of its nodes are neither nodes of a block nor anything but its own
decisions and the head of its loop. This module shows it for each kind of statement from the
segments of its blocks; `Block.segment` puts this together by induction on what is drawn.

## From pieces to a fragment

A statement is drawn piece by piece, and a `Sketch` is what has been drawn of it so far: the blocks that
are placed, and the nodes that are the statement's own. For each kind of statement the pieces are put in
a row, and `Sketch.drawn` makes the finished sketch what `Visit.Drawn` asks for. The kinds differ in
where their blocks start and in what stands between them.

All this takes the blocks of the statement for granted (`Block.Good`). The induction that does so for
blocks at any depth comes last (`Block.good`).

## Main results

* `drawn_simple`, `drawn_loop` and the others: each kind of statement is drawn as a fragment, if its
  blocks are.
* `Block.segment`: every block is drawn as a segment.
* `Visit.drawn`: every statement is drawn as a fragment.
-/

namespace Flowchart

open Builder

namespace Visit

/-- `n` may be a node that the statement itself draws: a decision is one of its chain, the head of a
loop is that of its loop. -/
def Owns (v : Visit) (n : Node) : Prop :=
  (n.shape = .decision → ∃ c, v.chain? = some c ∧ n.id ∈ c.decisions) ∧
    (n.shape = .loop → ∃ l, v.loop? = some l ∧ n.id = l.head)

/-- A statement owns each of its nodes that is no decision and no loop head. -/
theorem owns_of_shape {v : Visit} {n : Node} (h : n.shape ∉ [Shape.decision, .loop]) :
    v.Owns n := by
  simp only [List.mem_cons, List.not_mem_nil, or_false, not_or] at h
  exact ⟨fun hd => absurd hd h.1, fun hl => absurd hl h.2⟩

/-- What drawing a statement does. -/
structure Drawn (v : Visit) : Prop where
  segment : Segment v.exits v.before v.ends v.after
  placed : ∀ r ∈ v.blocks, r.Placed v.before v.ends v.after
  cover : ∀ n ∈ v.after.nodes,
    n ∈ v.before.nodes ∨ v.Owns n ∨ ∃ r ∈ v.blocks, n ∈ r.after.nodes ∧ n ∉ r.before.nodes

end Visit

/-- A finished sketch. -/
theorem Sketch.drawn {v : Visit} {t : String}
    (h : Sketch v.Owns v.exits v.before t v.ends v.blocks v.after)
    (hsingle : v.ends = [] ∨ ∃ id, v.ends = [Exit.plain id]) : v.Drawn where
  segment := ⟨h.fragment, Or.inr hsingle⟩
  placed := fun r hr => (h.placed r hr).2
  cover := h.cover

/-- A statement that is drawn as one block. -/
theorem Visit.drawn_of_block {v : Visit} {r : Block} (hr : r.Good) (hs : v.before.Sound)
    (hes : ∀ x ∈ v.exits, x.Pending v.before) (hexits : r.exits = v.exits)
    (hbefore : r.before = v.before) (hclose : (v.ends, v.after) = (r.ends, r.after))
    (hblocks : v.blocks = [r]) : v.Drawn := by
  obtain ⟨hends, hafter⟩ := Prod.mk.inj hclose
  have hout := hr (hbefore ▸ hs) (by rw [hexits, hbefore]; exact hes)
  refine ⟨?_, fun r' hr' => ?_, fun n hn => ?_⟩
  · rw [hends, hafter, ← hexits, ← hbefore]
    exact hout
  · rw [hblocks, List.mem_singleton] at hr'
    rw [hr', hends, hafter, ← hbefore]
    refine ⟨hbefore ▸ hs, ?_, Extends.refl _, Framed.refl _ _ _⟩
    rw [hexits, hbefore]
    exact hes
  · rw [hafter] at hn
    by_cases hold : n ∈ v.before.nodes
    · exact Or.inl hold
    · refine Or.inr (Or.inr ⟨r, ?_, hn, hbefore ▸ hold⟩)
      rw [hblocks]
      exact List.mem_singleton_self r

/-! ### Chains of decisions -/

section Chains

variable {P : Node → Prop} {es e₀ : List Exit} {b b₁ : Builder} {t : String} {blocks : List Block}

/-- After a decision comes the block drawn when it says yes. -/
theorem Sketch.yes {a : List Exit} {text : String} {line : Option Int} {body : List Stmt}
    (h : Sketch P es b t (e₀ ++ [Exit.no (b₁.freshId line), Exit.yes (b₁.freshId line)]) blocks
      (yesBlock a b₁ text line body).before) (hr : (yesBlock a b₁ text line body).Good) :
    Sketch P es b t ((e₀ ++ (yesBlock a b₁ text line body).ends) ++ [Exit.no (b₁.freshId line)])
      (blocks ++ [yesBlock a b₁ text line body]) (yesBlock a b₁ text line body).after := by
  have h' : Sketch P es b t ((e₀ ++ [Exit.no (b₁.freshId line)]) ++
      (yesBlock a b₁ text line body).exits) blocks (yesBlock a b₁ text line body).before := by
    rw [List.append_assoc]
    exact h
  refine (h'.block hr).congr fun x => ?_
  simp only [List.mem_append]
  tauto

/-- Going on with a chain. -/
theorem Chain.Laid.sketch {a : List Exit} {c : Chain} (hc : c.Laid a b₁)
    (h : Sketch P es b t (e₀ ++ a) blocks b₁)
    (hP : ∀ n : Node, n.shape = .decision → n.id ∈ c.decisions → P n)
    (hr : ∀ r ∈ c.blocks, r.Good) :
    Sketch P es b t (e₀ ++ c.ends) (blocks ++ c.blocks) c.last.after := by
  induction hc generalizing e₀ blocks with
  | last r => exact h.block (hr r (List.mem_singleton_self r))
  | @cons a b₁ text line body c hc ih =>
      have hadds := Adds.node b₁ .decision text line (by simp)
      have hlink := Fragment.link hadds h.sound_after
        (fun x hx => h.pending x (List.mem_append_right e₀ hx))
        (Exit.leaves_answers (b₁.freshNode .decision text line) rfl)
        (Or.inr (List.cons_ne_nil _ _))
      have hdec := h.go hlink fun n hn => by
        rw [linkAll_nodes, hadds.mem_iff] at hn
        refine hn.imp id ?_
        rintro rfl
        exact hP _ rfl List.mem_cons_self
      rw [Chain.cons_blocks] at hr
      have hrest := ih (hdec.yes (hr (yesBlock a b₁ text line body) List.mem_cons_self))
        (fun n hn hid => hP n hn (List.mem_cons_of_mem _ hid))
        (fun r hmem => hr r (List.mem_cons_of_mem _ hmem))
      rw [Chain.cons_ends, Chain.cons_blocks, Chain.cons_last]
      simpa only [List.append_assoc, List.singleton_append] using hrest

/-- A chain that starts with a decision. -/
theorem Chain.Laid.sketch_cons {text : String} {line : Option Int} {body : List Stmt} {c : Chain}
    (hc : c.Laid [Exit.no (b.freshId line)] (yesBlock es b text line body).after) (hs : b.Sound)
    (hes : ∀ x ∈ es, x.Pending b)
    (hP : ∀ n : Node, n.shape = .decision → n.id ∈ b.freshId line :: c.decisions → P n)
    (hr : ∀ r ∈ yesBlock es b text line body :: c.blocks, r.Good) :
    Sketch P es b (b.freshId line) ((yesBlock es b text line body).ends ++ c.ends)
      (yesBlock es b text line body :: c.blocks) c.last.after := by
  have hadds := Adds.node b .decision text line (by simp)
  have hstart : Sketch P es b (b.freshId line) ([] ++ [Exit.no (b.freshId line),
      Exit.yes (b.freshId line)]) [] (yesBlock es b text line body).before :=
    Sketch.start hadds hs hes (Exit.leaves_answers (b.freshNode .decision text line) rfl)
      (Or.inr (List.cons_ne_nil _ _)) (hP _ rfl List.mem_cons_self)
  exact hc.sketch (hstart.yes (hr _ List.mem_cons_self))
    (fun n hn hid => hP n hn (List.mem_cons_of_mem _ hid))
    (fun r hmem => hr r (List.mem_cons_of_mem _ hmem))

end Chains

/-- Collecting the exits in a merge point. -/
theorem Sketch.join {P : Node → Prop} {es e : List Exit} {b b₁ : Builder} {t : String}
    {blocks : List Block} (h : Sketch P es b t e blocks b₁)
    (hP : e ≠ [] → P b₁.mergeNode) :
    Sketch P es b t (b₁.join e).1 blocks (b₁.join e).2 := by
  refine h.go (c := []) (Fragment.join h.sound_after h.pending) fun n hn => ?_
  by_cases hne : e = []
  · rw [hne, join_nil] at hn
    exact Or.inl hn
  · rw [join_nodes_of_ne_nil b₁ hne, List.mem_append, List.mem_singleton] at hn
    refine hn.imp id ?_
    rintro rfl
    exact hP hne

/-- Branches and switches. -/
theorem Visit.drawn_chain {v : Visit} {c : Chain} (hc : v.chain? = some c) (hs : v.before.Sound)
    (hes : ∀ x ∈ v.exits, x.Pending v.before) (hr : ∀ r ∈ v.blocks, r.Good) : v.Drawn := by
  obtain ⟨s, es, b⟩ := v
  obtain ⟨hclose, hlaid, hblocks⟩ := Visit.close_chain hc
  rw [hblocks] at hr
  cases hlaid with
  | last r => exact drawn_of_block (hr r (List.mem_singleton_self r)) hs hes rfl rfl hclose hblocks
  | @cons _ _ text line body c hlaid =>
      rw [Chain.cons_close] at hclose
      have hends := congrArg Prod.fst hclose
      have hafter := congrArg Prod.snd hclose
      dsimp only at hends hafter
      rw [Chain.cons_blocks] at hblocks hr
      refine Sketch.drawn (t := b.freshId line) ?_ (hends ▸ join_single _ _)
      rw [hends, hafter, hblocks]
      refine (hlaid.sketch_cons hs hes
        (fun n hn hid => ⟨fun _ => ⟨_, hc, hid⟩, fun h => ?_⟩) hr).join
        fun _ => owns_of_shape (by simp)
      rw [hn] at h
      exact absurd h Shape.noConfusion

/-! ### Loops -/

section Loops

variable {P : Node → Prop} {es : List Exit} {b : Builder}

/-- The head of a loop is there after its body and its update. -/
theorem loopFrom_head_mem (line : Option Int) (text : String) (body : List Stmt) (update : String)
    (hr : Grows (loopFrom es b line text body update).body.before
      (loopFrom es b line text body update).body.after) :
    ∃ n ∈ (loopFrom es b line text body update).after.nodes,
      n.id = (loopFrom es b line text body update).head ∧ n.shape = .loop := by
  have hadds := Adds.node b .loop text line (by simp)
  refine ⟨b.freshNode .loop text line, ?_, rfl, rfl⟩
  have hmem : b.freshNode .loop text line ∈
      (loopFrom es b line text body update).body.before.nodes := by
    rw [loopFrom, place, linkAll_nodes]
    exact hadds.mem_nodes
  rw [Loop.after]
  split_ifs
  · rw [place, linkAll_nodes, addNode_nodes]
    exact List.mem_append_left _ (hr.mem_nodes hmem)
  · exact hr.mem_nodes hmem

/-- A loop up to the edges back to its head. -/
theorem loopFrom_sketch (line : Option Int) (text : String) (body : List Stmt) (update : String)
    (hs : b.Sound) (hes : ∀ x ∈ es, x.Pending b)
    (hr : (loopFrom es b line text body update).body.Good)
    (hP : ∀ n : Node, n.shape = .loop → n.id = (loopFrom es b line text body update).head → P n)
    (hP' : ∀ n : Node, n.shape = .process → P n) :
    Sketch P es b (loopFrom es b line text body update).head
      ([Exit.plain (loopFrom es b line text body update).head] ++
        (loopFrom es b line text body update).ends)
      [(loopFrom es b line text body update).body]
      (loopFrom es b line text body update).closed := by
  set l := loopFrom es b line text body update with hl
  have hstart : Sketch P es b l.head [Exit.plain l.head] [] l.body.before :=
    Sketch.enter hs hes (by simp) text line (hP _ rfl rfl)
  -- the head stays an exit while the body is drawn from it
  have hfrom : Sketch P es b l.head ([Exit.plain l.head] ++ l.body.exits) [] l.body.before :=
    hstart.congr (by simp [hl, loopFrom])
  have hbody : Sketch P es b l.head ([Exit.plain l.head] ++ l.body.ends) [l.body] l.body.after :=
    hfrom.block hr
  have hupdate : Sketch P es b l.head ([Exit.plain l.head] ++ l.ends) [l.body] l.after := by
    rw [Loop.ends, Loop.after]
    split_ifs
    · exact hbody.place (by simp) l.update l.line (hP' _ rfl)
    · exact hbody
  have hgrows := (hr hstart.sound_after hstart.pending).grows
  exact hupdate.back (List.subset_append_right _ _) (loopFrom_head_mem line text body update hgrows)

/-- The start of a counted loop is at most one node. -/
theorem countedEntry_fragment (line : Option Int) (init : String) (hs : b.Sound)
    (hes : ∀ x ∈ es, x.Pending b) :
    Fragment es b (countedEntry line init es b).1 (countedEntry line init es b).2 ∧
      ∀ n ∈ (countedEntry line init es b).2.nodes, n ∈ b.nodes ∨ n.shape = .process := by
  rw [countedEntry]
  split_ifs
  · exact ⟨Fragment.refl hes, fun _ hn => Or.inl hn⟩
  · refine ⟨Fragment.place hs hes (by simp) init line, fun n hn => ?_⟩
    rw [place, linkAll_nodes, addNode_nodes, List.mem_append, List.mem_singleton] at hn
    refine hn.imp id ?_
    rintro rfl
    rfl

end Loops

namespace Visit

/-- A loop is drawn as its head, its body and what follows it. -/
theorem drawn_loop {line : Option Int} {text : String} {body orelse : List Stmt} {es : List Exit}
    {b : Builder} (hs : b.Sound) (hes : ∀ x ∈ es, x.Pending b)
    (hr : ∀ r ∈ (⟨.loop line text body orelse, es, b⟩ : Visit).blocks, r.Good) :
    (⟨.loop line text body orelse, es, b⟩ : Visit).Drawn := by
  set v : Visit := ⟨.loop line text body orelse, es, b⟩ with hv
  set l := loopFrom es b line text body "" with hl
  set o : Block := ⟨orelse, [Exit.plain l.head], l.closed⟩ with ho
  have hblocks : v.blocks = [l.body, o] := rfl
  have hloop : v.loop? = some l := rfl
  have hlower : (v.ends, v.after) = (o.ends, o.after) := lowerStmt_loop ..
  have hends : v.ends = o.ends := congrArg Prod.fst hlower
  have hafter : v.after = o.after := congrArg Prod.snd hlower
  rw [hblocks] at hr
  have hclosed : Sketch v.Owns es b l.head ([Exit.plain l.head] ++ l.ends) [l.body] l.closed := by
    refine loopFrom_sketch line text body "" hs hes (hr l.body List.mem_cons_self)
      (fun n hn hid => ⟨?_, ?_⟩) fun n hn => owns_of_shape (by simp [hn])
    · rw [hn]
      exact fun h => absurd h Shape.noConfusion
    · exact fun _ => ⟨l, hloop, hid⟩
  have hhead : Sketch v.Owns es b l.head ([] ++ o.exits) [l.body] o.before :=
    hclosed.sub (List.subset_append_left _ _) fun _ =>
      LeadsOn.of_mem (List.mem_singleton_self (Exit.plain l.head))
  have ho := hr o (by simp)
  refine Sketch.drawn (t := l.head) ?_ ?_
  · rw [hends, hafter, hblocks]
    exact hhead.block ho
  · rw [hends]
    exact (ho hhead.sound_after hhead.pending).single.elim (fun h => Or.inr ⟨_, h⟩) id

/-- A counted loop has its start before the head and its update behind the body. -/
theorem drawn_countedLoop {line : Option Int} {text init cond update : String} {body : List Stmt}
    {es : List Exit} {b : Builder} (hs : b.Sound) (hes : ∀ x ∈ es, x.Pending b)
    (hr : ∀ r ∈ (⟨.countedLoop line text init cond update body, es, b⟩ : Visit).blocks, r.Good) :
    (⟨.countedLoop line text init cond update body, es, b⟩ : Visit).Drawn := by
  set v : Visit := ⟨.countedLoop line text init cond update body, es, b⟩ with hv
  set entry := countedEntry line init es b with he
  set l := loopFrom entry.1 entry.2 line (orText cond text) body update with hl
  have hblocks : v.blocks = [l.body] := rfl
  have hloop : v.loop? = some l := rfl
  have hlower : (v.ends, v.after) = ([Exit.plain l.head], l.closed) := lowerStmt_countedLoop ..
  obtain ⟨hends, hafter⟩ := Prod.mk.inj hlower
  rw [hblocks] at hr
  obtain ⟨hentry, hnew⟩ := countedEntry_fragment line init hs hes
  have hclosed : Sketch v.Owns entry.1 entry.2 l.head ([Exit.plain l.head] ++ l.ends) [l.body]
      l.closed := by
    refine loopFrom_sketch line (orText cond text) body update (hentry.grows.sound hs)
      hentry.pending (hr l.body List.mem_cons_self) (fun n hn hid => ⟨?_, ?_⟩)
      fun n hn => owns_of_shape (by simp [hn])
    · rw [hn]
      exact fun h => absurd h Shape.noConfusion
    · exact fun _ => ⟨l, hloop, hid⟩
  have hdone : Sketch v.Owns entry.1 entry.2 l.head [Exit.plain l.head] [l.body] l.closed :=
    hclosed.sub (List.subset_append_left _ _) fun _ =>
      LeadsOn.of_mem (List.mem_singleton_self (Exit.plain l.head))
  refine ⟨⟨?_, Or.inr (Or.inr ⟨l.head, hends⟩)⟩, fun r hmem => ?_, fun n hn => ?_⟩
  · rw [hends, hafter]
    exact hentry.seq hdone.fragment
  · rw [hblocks] at hmem
    rw [hends, hafter]
    obtain ⟨-, hp⟩ := hdone.placed r hmem
    exact ⟨hp.sound, hp.pending, hentry.grows.extends.trans hp.entered, hp.framed⟩
  · rw [hafter] at hn
    rw [hblocks]
    rcases hdone.cover n hn with hn | hn
    · exact (hnew n hn).imp id fun hshape => Or.inl (owns_of_shape (by simp [hshape]))
    · exact Or.inr hn

end Visit

/-! ### Guarded statements -/

/-- Going on with handlers, each reached from the entry of the guarded statement. -/
theorem Sketch.handlers {P : Node → Prop} {es e : List Exit} {b b₁ : Builder} {entry : String}
    {blocks : List Block} (handlers : List (Handler Stmt)) (h : Sketch P es b entry e blocks b₁)
    (hr : ∀ r ∈ (handlerLinks entry handlers b₁).1.map (·.block), r.Good)
    (hP : ∀ n : Node, n.shape = .flag → P n) :
    Sketch P es b entry (e ++ (handlerLinks entry handlers b₁).1.flatMap (·.block.ends))
      (blocks ++ (handlerLinks entry handlers b₁).1.map (·.block))
      (handlerLinks entry handlers b₁).2 := by
  induction handlers generalizing b₁ e blocks with
  | nil => simpa [handlerLinks] using h
  | cons hd rest ih =>
      obtain ⟨label, line, body⟩ := hd
      set r : Block := ⟨body, [Exit.plain (b₁.freshId line)],
        (b₁.addNode .flag label line).2.addEdge entry (b₁.freshId line) (some "Exception")
          .dashed⟩ with hdef
      have hspur : Sketch P es b entry (e ++ r.exits) blocks r.before :=
        h.spur label line .dashed (by simp) (by simp [forwardLabels]) (hP _ rfl)
      have hlinks : handlerLinks entry (⟨label, line, body⟩ :: rest) b₁ =
          (⟨b₁.freshId line, r⟩ :: (handlerLinks entry rest r.after).1,
            (handlerLinks entry rest r.after).2) := rfl
      rw [hlinks] at hr ⊢
      have hrest := ih (hspur.block (hr r List.mem_cons_self))
        (fun r' hr' => hr r' (List.mem_cons_of_mem _ hr'))
      simpa only [List.map_cons, List.flatMap_cons, List.append_assoc, List.singleton_append]
        using hrest

/-- Going on with a cleanup, on the way out if there is no exit. -/
theorem Sketch.cleanup {P : Node → Prop} {es a : List Exit} {b b₁ : Builder} {entry : String}
    {blocks : List Block} (c : Cleanup Stmt) (h : Sketch P es b entry a blocks b₁)
    (hr : (cleanupLink entry a c b₁).block.Good) (hP : ∀ n : Node, n.shape = .subroutine → P n) :
    Sketch P es b entry (if a.isEmpty then [] else (cleanupLink entry a c b₁).block.ends)
      (blocks ++ [(cleanupLink entry a c b₁).block]) (cleanupLink entry a c b₁).block.after := by
  set r := (cleanupLink entry a c b₁).block with hdef
  cases a with
  | nil =>
      have hgrows : Grows b₁ r.before :=
        Grows.spur h.sound_after h.mem (by simp [forwardLabels]) (by simp) "Finally" c.line .dashed
      have hspur : Sketch P es b entry ([] ++ r.exits) blocks r.before :=
        h.spur "Finally" c.line .dashed (by simp) (by simp [forwardLabels]) (hP _ rfl)
      have hafter := (hr hspur.sound_after hspur.pending).grows
      exact (hspur.block hr).sub (List.nil_subset _) fun hne =>
        (hgrows.trans hafter).leadsOn (List.Subset.refl _) (h.linked.leads hne)
  | cons x a =>
      have hplace : Sketch P es b entry ([] ++ r.exits) blocks r.before :=
        Sketch.place (c := []) h (by simp) "Finally" c.line (hP _ rfl)
      exact hplace.block hr

namespace Visit

/-- A guarded statement up to its handlers. -/
theorem guard_sketch {P : Node → Prop} {v : Visit} {g : Guard} (hg : v.guard? = some g)
    (hs : v.before.Sound) (hes : ∀ x ∈ v.exits, x.Pending v.before) (hr : ∀ r ∈ v.blocks, r.Good)
    (hflag : ∀ n : Node, n.shape = .flag → P n) :
    Sketch P v.exits v.before g.entry g.exits (g.body :: g.orelse :: g.handlers.map (·.block))
      g.handled := by
  rw [blocks_guard hg] at hr
  obtain ⟨s, es, b⟩ := v
  cases s with
  | guarded line text body orelse handlers cleanup =>
      set g' := guardFrom es b line text body orelse handlers with hdef
      obtain rfl : g' = g := Option.some.inj hg
      have hentry : Sketch P es b g'.entry ([] ++ g'.body.exits) [] g'.body.before :=
        Sketch.enter hs hes (by simp) (orText text "Try") line (hflag _ rfl)
      have hbody : Sketch P es b g'.entry ([] ++ g'.orelse.exits) [g'.body] g'.orelse.before :=
        hentry.block (hr g'.body (by simp))
      have horelse : Sketch P es b g'.entry g'.orelse.ends [g'.body, g'.orelse] g'.orelse.after :=
        hbody.block (hr g'.orelse (by simp))
      exact horelse.handlers handlers (fun r hmem => hr r (List.mem_cons_of_mem _
        (List.mem_cons_of_mem _ (List.mem_append_left _ hmem)))) hflag
  | _ => exact absurd hg (by simp [guard?])

/-- All of a guarded statement: its entry and its handlers are flags, its merge point collects the
exits from before the cleanup, and its cleanup starts at a subroutine. -/
theorem guarded_sketch {P : Node → Prop} {v : Visit} {g : Guard} (hg : v.guard? = some g)
    (hs : v.before.Sound) (hes : ∀ x ∈ v.exits, x.Pending v.before) (hr : ∀ r ∈ v.blocks, r.Good)
    (hflag : ∀ n : Node, n.shape = .flag → P n) (hmerge : g.exits ≠ [] → P g.handled.mergeNode)
    (hsub : ∀ n : Node, n.shape = .subroutine → P n) :
    Sketch P v.exits v.before g.entry v.ends v.blocks v.after := by
  have hjoined : Sketch P v.exits v.before g.entry g.joined.1
      (g.body :: g.orelse :: g.handlers.map (·.block)) g.joined.2 :=
    (guard_sketch hg hs hes hr hflag).join hmerge
  have hblocks := blocks_guard hg
  cases hf : v.finally? with
  | none =>
      obtain ⟨hends, hafter⟩ := close_guard_none hg hf
      rw [hf, Option.map_none, Option.toList_none, List.append_nil] at hblocks
      rw [hends, hafter, hblocks]
      exact hjoined
  | some f =>
      obtain ⟨hends, hafter⟩ := close_guard_some hg hf
      obtain ⟨c, rfl⟩ := exists_cleanup hg hf
      rw [hf] at hblocks
      have hdone := hjoined.cleanup c (hr _ (by simp [hblocks])) hsub
      rw [hends, hafter, hblocks]
      exact hdone

/-- A guarded statement is drawn as its guard and its cleanup. -/
theorem drawn_guarded {v : Visit} {g : Guard} (hg : v.guard? = some g) (hs : v.before.Sound)
    (hes : ∀ x ∈ v.exits, x.Pending v.before) (hr : ∀ r ∈ v.blocks, r.Good) : v.Drawn := by
  have hown : ∀ n : Node, n.shape ∉ [Shape.decision, .loop] → v.Owns n := fun n => owns_of_shape
  have hsketch : Sketch v.Owns v.exits v.before g.entry v.ends v.blocks v.after :=
    guarded_sketch hg hs hes hr (fun n hn => hown n (by simp [hn])) (fun _ => hown _ (by simp))
      fun n hn => hown n (by simp [hn])
  refine hsketch.drawn ?_
  cases hf : v.finally? with
  | none =>
      rw [(close_guard_none hg hf).1]
      exact join_single _ _
  | some f =>
      have hmem := finally_mem_blocks hg hf
      obtain ⟨-, hp⟩ := hsketch.placed f.block hmem
      obtain ⟨-, -, -, hexits⟩ := exits_guard hg
      rw [(close_guard_some hg hf).1]
      split_ifs
      · exact Or.inl rfl
      · have hsingle := (hr f.block hmem hp.sound hp.pending).single
        rw [hexits f hf] at hsingle
        exact hsingle.elim (fun h => Or.inr ⟨_, h⟩) id

/-! ### The other statements -/

/-- A resource is drawn as its node, its body and what closes it. -/
theorem drawn_resource {line : Option Int} {text close : String} {body : List Stmt}
    {es : List Exit} {b : Builder} (hs : b.Sound) (hes : ∀ x ∈ es, x.Pending b)
    (hr : ∀ r ∈ (⟨.resource line text body close, es, b⟩ : Visit).blocks, r.Good) :
    (⟨.resource line text body close, es, b⟩ : Visit).Drawn := by
  set v : Visit := ⟨.resource line text body close, es, b⟩ with hv
  set r : Block := ⟨body, [Exit.plain (b.freshId line)], b.place es .process text line⟩ with hdef
  have hblocks : v.blocks = [r] := rfl
  have hlower : (v.ends, v.after) = if r.ends.isEmpty then ([], r.after)
      else ([Exit.plain (r.after.freshId line)],
        r.after.place r.ends .process (orText close "Close") line) := lowerStmt_resource ..
  have hown : ∀ n : Node, n.shape ∉ [Shape.decision, .loop] → v.Owns n := fun n => owns_of_shape
  have hentry : Sketch v.Owns es b (b.freshId line) ([] ++ r.exits) [] r.before :=
    Sketch.enter hs hes (by simp) text line (hown _ (by simp))
  have hbody : Sketch v.Owns es b (b.freshId line) ([] ++ r.ends) [r] r.after :=
    hentry.block (hr r (hblocks ▸ List.mem_singleton_self r))
  split_ifs at hlower with hempty
  · obtain ⟨hends, hafter⟩ := Prod.mk.inj hlower
    rw [List.isEmpty_iff] at hempty
    refine Sketch.drawn (t := b.freshId line) ?_ (Or.inl hends)
    rw [hends, hafter, hblocks, ← hempty]
    exact hbody
  · obtain ⟨hends, hafter⟩ := Prod.mk.inj hlower
    refine Sketch.drawn (t := b.freshId line) ?_ (Or.inr ⟨_, hends⟩)
    rw [hends, hafter, hblocks]
    exact hbody.place (by simp) (orText close "Close") line (hown _ (by simp))

/-- A function is drawn as its node, and its body is reached from there. -/
theorem drawn_function {line : Option Int} {text : String} {body : List Stmt} {es : List Exit}
    {b : Builder} (hs : b.Sound) (hes : ∀ x ∈ es, x.Pending b)
    (hr : ∀ r ∈ (⟨.function line text body, es, b⟩ : Visit).blocks, r.Good) :
    (⟨.function line text body, es, b⟩ : Visit).Drawn := by
  let v : Visit := ⟨.function line text body, es, b⟩
  let r : Block := ⟨body, [Exit.plain (b.freshId line)], b.place es .stadium text line⟩
  have hentry : Sketch v.Owns es b (b.freshId line) r.exits [] r.before :=
    Sketch.enter hs hes (by simp) text line (owns_of_shape (by simp))
  have hfrom : Sketch v.Owns es b (b.freshId line) ([Exit.plain (b.freshId line)] ++ r.exits) []
      r.before := hentry.congr (by simp [r])
  have hbody := hfrom.block (hr r (List.mem_singleton_self r))
  exact Sketch.drawn (hbody.sub (List.subset_append_left _ _) fun _ =>
    LeadsOn.of_mem (List.mem_singleton_self (Exit.plain (b.freshId line)))) (Or.inr ⟨_, rfl⟩)

/-- A step is drawn as one node. -/
theorem drawn_simple {line : Option Int} {text : String} {es : List Exit} {b : Builder}
    (hs : b.Sound) (hes : ∀ x ∈ es, x.Pending b) : (⟨.simple line text, es, b⟩ : Visit).Drawn :=
  Sketch.drawn (Sketch.start (Adds.node b .process text line (by simp)) hs hes
    (Exit.leaves_plain (b.freshNode .process text line) (by simp)) (Or.inr (List.cons_ne_nil _ _))
    (owns_of_shape (by simp))) (Or.inr ⟨_, rfl⟩)

/-- A terminal is drawn as one node that control does not leave. -/
theorem drawn_terminal {line : Option Int} {text : String} {es : List Exit} {b : Builder}
    (hs : b.Sound) (hes : ∀ x ∈ es, x.Pending b) : (⟨.terminal line text, es, b⟩ : Visit).Drawn :=
  Sketch.drawn (Sketch.start (Adds.node b .terminal text line (by simp)) hs hes
    (e := []) (by simp) (Or.inl rfl) (owns_of_shape (by simp))) (Or.inl rfl)

/-- Nothing is drawn, and the exits are handed on. -/
theorem drawn_skip {es : List Exit} {b : Builder} (hes : ∀ x ∈ es, x.Pending b) :
    (⟨.skip, es, b⟩ : Visit).Drawn where
  segment := Segment.refl hes
  placed := fun _ hr => absurd hr List.not_mem_nil
  cover := fun _ hn => Or.inl hn

/-- Statements in a row are drawn as their block. -/
theorem drawn_block {line : Option Int} {body : List Stmt} {es : List Exit} {b : Builder}
    (hs : b.Sound) (hes : ∀ x ∈ es, x.Pending b)
    (hr : ∀ r ∈ (⟨.block line body, es, b⟩ : Visit).blocks, r.Good) :
    (⟨.block line body, es, b⟩ : Visit).Drawn :=
  drawn_of_block (hr ⟨body, es, b⟩ (List.mem_singleton_self _)) hs hes rfl rfl rfl rfl

/-- The members of a container are drawn one after another, and nothing leads to them. -/
theorem memberBlocks_drawn (members : List Stmt) {b : Builder} (hs : b.Sound)
    (hr : ∀ r ∈ memberBlocks members b, r.Good) :
    Fragment [] b [] (lowerMembers members b).2 ∧
      (∀ r ∈ memberBlocks members b,
        b.next ≤ r.before.next ∧ r.Placed b [] (lowerMembers members b).2) ∧
      ∀ n ∈ (lowerMembers members b).2.nodes, n ∈ b.nodes ∨
        ∃ r ∈ memberBlocks members b, n ∈ r.after.nodes ∧ n ∉ r.before.nodes := by
  induction members generalizing b with
  | nil => exact ⟨Fragment.refl (by simp), by simp [memberBlocks], fun _ hn => Or.inl hn⟩
  | cons s rest ih =>
      set r : Block := ⟨[s], [], b⟩ with hdef
      have hblocks : memberBlocks (s :: rest) b = r :: memberBlocks rest r.after := rfl
      have hlower : (lowerMembers (s :: rest) b).2 = (lowerMembers rest r.after).2 := rfl
      rw [hblocks] at hr ⊢
      rw [hlower]
      have hfirst : Fragment [] b [] r.after :=
        (hr r List.mem_cons_self hs (by simp [hdef])).toFragment.drop
      obtain ⟨hrest, hplaced, hcover⟩ :=
        ih (hfirst.grows.sound hs) fun r' hr' => hr r' (List.mem_cons_of_mem _ hr')
      refine ⟨hfirst.seq hrest, fun r' hr' => ?_, fun n hn => ?_⟩
      · rcases List.mem_cons.mp hr' with rfl | hr'
        · exact ⟨Nat.le_refl _, hs, by simp [hdef], Extends.refl b,
            (hrest.framed _).widen (List.nil_subset _)⟩
        · obtain ⟨hle, hp⟩ := hplaced r' hr'
          exact ⟨Nat.le_trans hfirst.grows.next_le hle, hp.sound, hp.pending,
            hfirst.grows.extends.trans hp.entered, hp.framed⟩
      · rcases hcover n hn with hn | ⟨r', hr', hn⟩
        · by_cases hold : n ∈ b.nodes
          · exact Or.inl hold
          · exact Or.inr ⟨r, List.mem_cons_self, hn, hold⟩
        · exact Or.inr ⟨r', List.mem_cons_of_mem _ hr', hn⟩

/-- All that comes after the members of a container is the placeholder of one without nodes, and its
end. -/
theorem exists_lowerStmt_container (line : Option Int) (text : String) (members : List Stmt)
    (es : List Exit) (b : Builder)
    (hgrows : Grows (b.openSubgraph text line).2
      (lowerMembers members (b.openSubgraph text line).2).2) :
    let b₁ := (lowerMembers members (b.openSubgraph text line).2).2
    ∃ b₂ : Builder, lowerStmt (.container line text members) es b = (es, b₂.closeSubgraph) ∧
      Grows b₁ b₂ ∧ b.nodes.length + 1 < b₂.nodes.length ∧ b₂.edges = b₁.edges ∧
        ∀ n ∈ b₂.nodes, n ∈ b₁.nodes ∨ n.shape = .process := by
  intro b₁
  have hlower := lowerStmt_container line text members es b
  have hle : b.nodes.length + 1 ≤ b₁.nodes.length := by
    have := hgrows.nodes_prefix.length_le
    rwa [openSubgraph_nodes, List.length_append, List.length_singleton] at this
  by_cases hempty : b₁.nodes.length = b.nodes.length + 1
  · refine ⟨(b₁.addNode .process text line).2, ?_, ?_, ?_, rfl, fun n hn => ?_⟩
    · rw [hlower]
      dsimp only
      rw [if_pos hempty]
    · exact Grows.node b₁ text line (by simp) IdFamily.proper_line
    · rw [addNode_nodes, List.length_append, List.length_singleton]
      omega
    · rw [addNode_nodes, List.mem_append, List.mem_singleton] at hn
      exact hn.imp id fun hn => by rw [hn]
  · refine ⟨b₁, ?_, Grows.refl _, by omega, rfl, fun n hn => Or.inl hn⟩
    rw [hlower]
    dsimp only
    rw [if_neg hempty]

/-- A container draws its members apart, and its exits are handed on. -/
theorem drawn_container {line : Option Int} {text : String} {members : List Stmt} {es : List Exit}
    {b : Builder} (hs : b.Sound) (hes : ∀ x ∈ es, x.Pending b)
    (hr : ∀ r ∈ (⟨.container line text members, es, b⟩ : Visit).blocks, r.Good) :
    (⟨.container line text members, es, b⟩ : Visit).Drawn := by
  set v : Visit := ⟨.container line text members, es, b⟩ with hv
  set b₀ := (b.openSubgraph text line).2 with hb₀
  set b₁ := (lowerMembers members b₀).2 with hb₁
  have hblocks : v.blocks = memberBlocks members b₀ := rfl
  obtain ⟨hfrag, hplaced, hcover⟩ := memberBlocks_drawn members (hs.openSubgraph text line) hr
  obtain ⟨b₂, hlower, hgrows, hlen, hedges, hnodes⟩ :=
    exists_lowerStmt_container line text members es b hfrag.grows
  have hends : v.ends = es := congrArg Prod.fst hlower
  have hafter : v.after = b₂.closeSubgraph := congrArg Prod.snd hlower
  have hscope : Grows b v.after := hafter ▸ Grows.scope text line (hfrag.grows.trans hgrows) hlen
  have hlast : Framed b₀.next [] b₁ es v.after := by
    refine ⟨?_, fun d hd => Or.inl ?_, fun x hx => Or.inl (Or.inl ?_)⟩
    · rw [hafter]
      exact hgrows.extends.trans (Extends.closeSubgraph b₂)
    · rw [hafter, closeSubgraph_edges, hedges] at hd
      exact hd
    · exact Nat.lt_succ_of_lt (hs.idNumber_lt (hes x hx).mem_ids)
  have hnew : ∀ d ∈ v.after.edges, d ∈ b.edges ∨ b.next ≤ idNumber d.source ∧
      b.next ≤ idNumber d.target := by
    intro d hd
    rw [hafter, closeSubgraph_edges, hedges] at hd
    have hnext : b.next ≤ b₀.next := Nat.le_succ _
    rcases hfrag.target d hd with hold | htarget
    · exact Or.inl hold
    · rcases hfrag.source hd with hold | hsource | ⟨x, hx, -⟩
      · exact Or.inl hold
      · exact Or.inr ⟨Nat.le_trans hnext hsource, Nat.le_trans hnext htarget⟩
      · exact absurd hx List.not_mem_nil
  refine ⟨⟨⟨hscope, ?_, ?_, Or.inl ⟨hends, ?_⟩⟩, Or.inl hends⟩, fun r hmem => ?_, fun n hn => ?_⟩
  · rw [hends]
    exact fun x hx => (hes x hx).mono hscope.nodes_prefix.subset
  · exact fun d hd => (hnew d hd).imp id And.right
  · exact fun d hd => (hnew d hd).imp id And.left
  · obtain ⟨hle, hp⟩ := hplaced r (hblocks ▸ hmem)
    rw [hends]
    exact ⟨hp.sound, hp.pending, (Extends.openSubgraph b text line).trans hp.entered,
      hp.framed.trans hle hlast⟩
  · rw [hafter, closeSubgraph_nodes] at hn
    rcases hnodes n hn with hn | hshape
    · rcases hcover n hn with hn | hn
      · rw [openSubgraph_nodes, List.mem_append, List.mem_singleton] at hn
        refine hn.imp id fun hn => Or.inl (owns_of_shape ?_)
        rw [hn]
        simp
      · exact Or.inr (Or.inr hn)
    · exact Or.inr (Or.inl (owns_of_shape (by simp [hshape])))

/-- Every statement is drawn as its blocks allow. -/
theorem drawn_of_good (v : Visit) (hs : v.before.Sound) (hes : ∀ x ∈ v.exits, x.Pending v.before)
    (hr : ∀ r ∈ v.blocks, r.Good) : v.Drawn := by
  obtain ⟨s, es, b⟩ := v
  cases s with
  | simple => exact drawn_simple hs hes
  | branch => exact drawn_chain rfl hs hes hr
  | loop => exact drawn_loop hs hes hr
  | countedLoop => exact drawn_countedLoop hs hes hr
  | guarded => exact drawn_guarded rfl hs hes hr
  | switch => exact drawn_chain rfl hs hes hr
  | resource => exact drawn_resource hs hes hr
  | terminal => exact drawn_terminal hs hes
  | function => exact drawn_function hs hes hr
  | container => exact drawn_container hs hes hr
  | block => exact drawn_block hs hes hr
  | skip => exact drawn_skip hes

end Visit

/-! ### Blocks -/

/-- Drawing a block has a segment. -/
theorem Block.good (r : Block) : r.Good := by
  induction r using Block.induction with
  | nil es b => exact fun _ hes => Segment.refl hes
  | cons s rest es b hblocks hrest =>
      intro hs hes
      have hv := Visit.drawn_of_good ⟨s, es, b⟩ hs hes hblocks
      exact hv.segment.seq (hrest (hv.segment.grows.sound hs) hv.segment.pending)

/-- Drawing a block from pending exits has a segment. -/
theorem Block.segment (r : Block) (hs : r.before.Sound) (hes : ∀ x ∈ r.exits, x.Pending r.before) :
    Segment r.exits r.before r.ends r.after := r.good hs hes

/-- Every statement that is reached from pending exits is drawn. -/
theorem Visit.drawn (v : Visit) (hs : v.before.Sound) (hes : ∀ x ∈ v.exits, x.Pending v.before) :
    v.Drawn := v.drawn_of_good hs hes fun r _ => r.good

end Flowchart
