import Flowchart.Proofs.Drawing.Visits
import Flowchart.Proofs.Label

/-!
# Decisions

A decision is left by two answers. While its chain is drawn, each answer is an exit that is still
pending or an edge that has been drawn: `Builder.Side` says which, and that in the second case
control goes on from where the edge leads. Going on with a fragment takes a pending answer to an
edge, or leaves it (`Side.step`); once the exits of the chain have been collected, both answers
are edges, and from each of them the end of a function or the merge point of the chain is reached.

What is drawn later adds no edge to a decision, since nothing of its chain but the merge point is
still pending then.

The limit of labels is a number here. Under a limit that is of no use all labels are empty, and the
two answers cannot be told apart.

## Answers that are pending

A decision has two exits as soon as it is drawn, one for each answer. The exit for yes is used up by the
body that follows. The exit for no goes on to the next decision of the chain or to the else part, and
waits until then. `Builder.Answers` holds both at once, so a step of the drawing may take the one and
leave the other alone. When the chain is closed both have become edges, and this is kept by all that is
drawn later.

## Main results

* `Builder.Side.step`: what a fragment makes of a pending answer.
* `Chain.close_eq`: where the exits of a chain are collected.
* `decisions_program`: the two edges of each decision, and where control goes from them.
-/

namespace Flowchart

open Builder

/-- The edges of two exits differ, unless the exits and the targets are the same. -/
theorem Exit.edgeTo_injective {b : Builder} {limit : Int} (hlimit : b.limit = some limit)
    {x y : Exit} (hx : x.Pending b) (hy : y.Pending b) {t u : String}
    (h : x.edgeTo b t = y.edgeTo b u) : x = y ∧ t = u := by
  have hwords : ∀ {z : Exit}, z.Pending b → ∀ w ∈ z.label, w ∈ Label.edgeWords := by
    rintro z ⟨n, -, hz⟩ w hw
    rcases hz.label_mem with hl | hl | hl <;> rw [hl] at hw
    · exact absurd hw (by simp)
    · rw [← Option.some.inj hw]
      decide
    · rw [← Option.some.inj hw]
      decide
  obtain ⟨hsource, htarget, hlabel, hstyle⟩ := Edge.mk.inj h
  have hl := edgeLabel_injective hlimit (hwords hx) (hwords hy) hlabel
  obtain ⟨xn, xl, xs⟩ := x
  obtain ⟨yn, yl, ys⟩ := y
  obtain ⟨rfl, rfl, rfl⟩ : xn = yn ∧ xl = yl ∧ xs = ys := ⟨hsource, hl, hstyle⟩
  exact ⟨rfl, htarget⟩

/-- The exits of a decision are its answers. -/
theorem Exit.Leaves.mem_answers {x : Exit} {n : Node} (h : x.Leaves n) (hn : n.shape = .decision) :
    x ∈ [Exit.no n.id, Exit.yes n.id] := by
  obtain ⟨node, label, style⟩ := x
  obtain rfl : n.id = node := h.node_eq
  obtain rfl : style = .solid := h.style_eq
  have hanswer : label ≠ none := h.answer hn
  rcases h.label_mem with hl | hl | hl <;> simp_all

namespace Builder

/-- The answer `x` is pending and no edge yet, or it is one edge and control goes on from there. -/
def Side (b : Builder) (e : List Exit) (x : Exit) : Prop :=
  (x ∈ e ∧ ∀ u, x.edgeTo b u ∉ b.edges) ∨
    (x ∉ e ∧ ∃ t, LeadsOn b t e ∧ ∀ u, x.edgeTo b u ∈ b.edges ↔ u = t)

namespace Side

variable {b b' : Builder} {e e' c a a' : List Exit} {x : Exit}

/-- The order of the exits does not matter. -/
theorem congr (h : Side b e x) (he : ∀ y, y ∈ e' ↔ y ∈ e) : Side b e' x := by
  rcases h with ⟨hx, hnone⟩ | ⟨hx, t, hlead, hone⟩
  · exact Or.inl ⟨(he x).mpr hx, hnone⟩
  · refine Or.inr ⟨fun hmem => hx ((he x).mp hmem), t, hlead.mono (List.Subset.refl _)
      (List.Subset.refl _) fun y hy => (he y).mpr hy, hone⟩

/-- Further exits, of other nodes, do not matter. -/
theorem append_left (h : Side b e x) (hc : ∀ y ∈ c, y.node ≠ x.node) : Side b (c ++ e) x := by
  rcases h with ⟨hx, hnone⟩ | ⟨hx, t, hlead, hone⟩
  · exact Or.inl ⟨List.mem_append_right c hx, hnone⟩
  · refine Or.inr ⟨fun hmem => ?_, t, hlead.mono (List.Subset.refl _) (List.Subset.refl _)
      (List.subset_append_right c e), hone⟩
    rcases List.mem_append.mp hmem with hmem | hmem
    · exact hc x hmem rfl
    · exact hx hmem

/-- Drawing that adds no edge from the answer keeps its side. -/
theorem mono (h : Side b e x) (hkeep : Extends b b')
    (hedge : ∀ u, x.edgeTo b' u ∈ b'.edges → x.edgeTo b' u ∈ b.edges) (hexit : x ∈ e' ↔ x ∈ e)
    (hlead : ∀ t, LeadsOn b t e → LeadsOn b' t e') : Side b' e' x := by
  have hsame : ∀ u, x.edgeTo b' u = x.edgeTo b u := fun u => by
    rw [Exit.edgeTo, Exit.edgeTo, hkeep.edgeLabel_eq]
  have hiff : ∀ u, x.edgeTo b' u ∈ b'.edges ↔ x.edgeTo b u ∈ b.edges := by
    intro u
    refine ⟨fun hmem => hsame u ▸ hedge u hmem, fun hmem => ?_⟩
    rw [hsame u]
    exact hkeep.edges_prefix.subset hmem
  rcases h with ⟨hx, hnone⟩ | ⟨hx, t, ht, hone⟩
  · exact Or.inl ⟨hexit.mpr hx, fun u hu => hnone u ((hiff u).mp hu)⟩
  · exact Or.inr ⟨fun hmem => hx (hexit.mp hmem), t, hlead t ht, fun u => (hiff u).trans (hone u)⟩

/-- Going on from some of the exits keeps the sides of decisions drawn before. -/
theorem step {limit : Int} (hlimit : b.limit = some limit) (hs : b.Sound) (hx : x.Pending b)
    (ha : ∀ y ∈ a, y.Pending b) (hdisjoint : x ∈ a → x ∉ c) (h : Side b (c ++ a) x)
    (hf : Fragment a b a' b') : Side b' (c ++ a') x := by
  have hlt := hs.idNumber_lt hx.mem_ids
  have hsame : ∀ u, x.edgeTo b' u = x.edgeTo b u := hf.grows.edgeTo_eq x
  have hlead : ∀ t, LeadsOn b t (c ++ a) → LeadsOn b' t (c ++ a') := fun t => hf.leads
    (fun y hy => (List.mem_append.mp hy).imp (List.mem_append_left a') id)
    (List.subset_append_right c a')
  rcases hf.flow with hp | ⟨t, hl⟩
  · refine h.mono hf.grows.extends (fun u hu => (hp.source _ hu).resolve_right ?_) ?_ hlead
    · exact Nat.not_le.mpr hlt
    · rw [hp.ends_eq]
  have hfresh : x ∉ a' := fun hmem => absurd (hl.fresh x hmem) (Nat.not_le.mpr hlt)
  -- an edge from the answer is an old one, or the one that links it
  have hnew : ∀ u, x.edgeTo b' u ∈ b'.edges → x.edgeTo b' u ∈ b.edges ∨ x ∈ a ∧ u = t := by
    intro u hu
    rcases hl.source _ hu with hold | hsource | ⟨y, hy, heq⟩
    · exact Or.inl hold
    · exact absurd hsource (Nat.not_le.mpr hlt)
    · rw [hsame u] at heq
      obtain ⟨rfl, rfl⟩ := Exit.edgeTo_injective hlimit hx (ha y hy) heq
      exact Or.inr ⟨hy, rfl⟩
  by_cases hmem : x ∈ a
  · rcases h with ⟨-, hnone⟩ | ⟨hx', -⟩
    · refine Or.inr ⟨?_, t, (hl.leads (List.ne_nil_of_mem hmem)).mono (List.Subset.refl _)
        (List.Subset.refl _) (List.subset_append_right c a'), fun u => ⟨fun hu => ?_, ?_⟩⟩
      · rw [List.mem_append, not_or]
        exact ⟨hdisjoint hmem, hfresh⟩
      · rcases hnew u hu with hu | ⟨-, rfl⟩
        · exact absurd (hsame u ▸ hu) (hnone u)
        · rfl
      · rintro rfl
        rw [hsame]
        exact hl.linked x hmem
    · exact absurd (List.mem_append_right c hmem) hx'
  · refine h.mono hf.grows.extends (fun u hu => ?_) ?_ hlead
    · exact (hnew u hu).resolve_right fun hu => hmem hu.1
    · simp only [List.mem_append, hfresh, hmem]

end Side

/-- The answers of the decision `d`: the side of each, and no other edge leaves `d`. -/
structure Answers (b : Builder) (e : List Exit) (d : String) : Prop where
  node_mem : ∃ n ∈ b.nodes, n.id = d ∧ n.shape = .decision
  yes : Side b e (Exit.yes d)
  no : Side b e (Exit.no d)
  only : ∀ a ∈ b.edges, a.source = d → ∃ x ∈ [Exit.no d, Exit.yes d], ∃ t, a = x.edgeTo b t

namespace Answers

variable {b b' : Builder} {e e' c a a' : List Exit} {d : String}

/-- Both answers of a decision are pending. -/
theorem pending (h : Answers b e d) : ∀ x ∈ [Exit.no d, Exit.yes d], x.Pending b := by
  obtain ⟨n, hn, rfl, hshape⟩ := h.node_mem
  exact fun x hx => ⟨n, hn, Exit.leaves_answers n hshape x hx⟩

/-- The answers depend on which exits there are, not on their order. -/
theorem congr (h : Answers b e d) (he : ∀ y, y ∈ e' ↔ y ∈ e) : Answers b e' d :=
  ⟨h.node_mem, h.yes.congr he, h.no.congr he, h.only⟩

/-- Exits of other nodes leave the answers as they are. -/
theorem append_left (h : Answers b e d) (hc : ∀ y ∈ c, y.node ≠ d) : Answers b (c ++ e) d :=
  ⟨h.node_mem, h.yes.append_left hc, h.no.append_left hc, h.only⟩

/-- Going on from some of the exits keeps the answers of decisions drawn before. -/
theorem step {limit : Int} (hlimit : b.limit = some limit) (hs : b.Sound)
    (ha : ∀ y ∈ a, y.Pending b) (hdisjoint : ∀ x ∈ [Exit.no d, Exit.yes d], x ∈ a → x ∉ c)
    (h : Answers b (c ++ a) d) (hf : Fragment a b a' b') : Answers b' (c ++ a') d := by
  have hno := h.pending (Exit.no d) (by simp)
  have hyes := h.pending (Exit.yes d) (by simp)
  obtain ⟨n, hn, hid, hshape⟩ := h.node_mem
  refine ⟨⟨n, hf.grows.mem_nodes hn, hid, hshape⟩,
    h.yes.step hlimit hs hyes ha (hdisjoint _ (by simp)) hf,
    h.no.step hlimit hs hno ha (hdisjoint _ (by simp)) hf, fun w hw hsource => ?_⟩
  have hold : w ∈ b.edges → ∃ x ∈ [Exit.no d, Exit.yes d], ∃ t, w = x.edgeTo b' t := by
    intro hw
    obtain ⟨x, hx, t, hxt⟩ := h.only w hw hsource
    exact ⟨x, hx, t, hxt.trans (hf.grows.edgeTo_eq x t).symm⟩
  have hlt := hs.idNumber_lt hno.mem_ids
  rcases hf.flow with hp | ⟨t, hl⟩
  · rcases hp.source w hw with hw | hw
    · exact hold hw
    · rw [hsource] at hw
      exact absurd hlt (Nat.not_lt.mpr hw)
  · rcases hl.source w hw with hw | hw | ⟨y, hy, rfl⟩
    · exact hold hw
    · rw [hsource] at hw
      exact absurd hlt (Nat.not_lt.mpr hw)
    · refine ⟨y, ?_, t, (hf.grows.edgeTo_eq y t).symm⟩
      obtain ⟨m, hm, hleaves⟩ := ha y hy
      have hmn : m = n := hs.node_eq hm hn (by rw [hleaves.node_eq, hid, ← hsource]; rfl)
      rw [← hid, ← hmn]
      exact hleaves.mem_answers (hmn ▸ hshape)

end Answers

end Builder

/-! ### Chains -/

section Decision

variable {es : List Exit} {b : Builder}

/-- A decision that the exits are linked to. -/
theorem Fragment.decision (hs : b.Sound) (hes : ∀ x ∈ es, x.Pending b) (text : String)
    (line : Option Int) : Fragment es b ([Exit.no (b.freshId line)] ++ [Exit.yes (b.freshId line)])
      (b.place es .decision text line) :=
  Fragment.link (Adds.node b .decision text line (by simp)) hs hes
    (Exit.leaves_answers (b.freshNode .decision text line) rfl) (Or.inr (List.cons_ne_nil _ _))

/-- The answers of a new decision are pending. -/
theorem Builder.Answers.first (hs : b.Sound) (hes : ∀ x ∈ es, x.Pending b) (text : String)
    (line : Option Int) : Answers (b.place es .decision text line)
      ([Exit.no (b.freshId line)] ++ [Exit.yes (b.freshId line)]) (b.freshId line) := by
  have hadds := Adds.node b .decision text line (by simp)
  have hnumber : idNumber (b.freshId line) = b.next := hadds.number_eq
  have hnone : ∀ w ∈ (b.place es .decision text line).edges, w.source ≠ b.freshId line := by
    intro w hw heq
    have hlt : idNumber w.source < b.next := by
      rcases (mem_linkAll_edges (fun x hx => hs.isEmpty_eq_false (hes x hx).mem_ids)
        ((hadds.grows.sound hs).isEmpty_eq_false hadds.mem_ids)).mp hw with hw | ⟨x, hx, rfl⟩
      · exact hs.idNumber_lt (hs.source_mem w hw)
      · exact hs.idNumber_lt (hes x hx).mem_ids
    rw [heq, hnumber] at hlt
    exact absurd hlt (Nat.lt_irrefl _)
  refine ⟨⟨b.freshNode .decision text line, ?_, rfl, rfl⟩, Or.inl ⟨by simp, fun u hu => ?_⟩,
    Or.inl ⟨by simp, fun u hu => ?_⟩, fun w hw hsource => absurd hsource (hnone w hw)⟩
  · rw [place, linkAll_nodes]
    exact hadds.mem_nodes
  · exact hnone _ hu rfl
  · exact hnone _ hu rfl

end Decision

namespace Chain.Laid

variable {es : List Exit} {b : Builder} {c : Chain}

/-- A chain is a fragment. -/
theorem fragment (hc : c.Laid es b) (hs : b.Sound) (hes : ∀ x ∈ es, x.Pending b) :
    Fragment es b c.ends c.last.after := by
  cases hc with
  | last r => exact (r.segment hs hes).toFragment
  | cons es b text line body hc =>
      rw [cons_ends]
      exact (hc.sketch_cons (P := fun _ => True) hs hes (fun _ _ _ => trivial)
        fun r _ => r.good).fragment

/-- When a chain has been drawn, each of its decisions has its answers. -/
theorem answers (hc : c.Laid es b) {limit : Int} (hlimit : b.limit = some limit) (hs : b.Sound)
    (hes : ∀ x ∈ es, x.Pending b) :
    ∀ d ∈ c.decisions, b.next ≤ idNumber d ∧ Answers c.last.after c.ends d := by
  induction hc with
  | last r => exact fun d hd => absurd hd List.not_mem_nil
  | @cons es b text line body c hc ih =>
      set d := b.freshId line with hd
      set yes := yesBlock es b text line body with hyes
      have hfirst := Answers.first hs hes text line
      have hplace := Fragment.decision hs hes text line
      have hs₁ := hplace.grows.sound hs
      have hout := yes.segment hs₁ fun x hx => hplace.pending x (List.mem_append_right _ hx)
      have hs₂ := hout.grows.sound hs₁
      have hyes' : Answers yes.after ([Exit.no d] ++ yes.ends) d :=
        hfirst.step (hplace.grows.context_eq.2.1.trans hlimit) hs₁
          (fun x hx => hplace.pending x (List.mem_append_right _ hx)) (by simp) hout.toFragment
      have hlimit₂ : yes.after.limit = some limit :=
        (hplace.grows.trans hout.grows).context_eq.2.1.trans hlimit
      have hno : ∀ x ∈ [Exit.no d], x.Pending yes.after := fun x hx =>
        hyes'.pending x (List.mem_cons.mpr (Or.inl (List.mem_singleton.mp hx)))
      -- the exits of the block are not the other answer
      have hends : ∀ x ∈ [Exit.no d, Exit.yes d], x ∈ [Exit.no d] → x ∉ yes.ends := by
        rintro x - hx
        rw [List.mem_singleton.mp hx]
        rcases hout.single with heq | heq | ⟨id, heq⟩ <;> rw [heq] <;> simp [hyes, yesBlock]
      intro d' hd'
      rw [cons_ends, cons_last]
      rcases List.mem_cons.mp hd' with rfl | hd'
      · refine ⟨Nat.le_of_eq (idNumber_idOf IdFamily.proper_line line b.next).symm, ?_⟩
        refine (hyes'.congr fun y => ?_).step hlimit₂ hs₂ hno hends (hc.fragment hs₂ hno)
        rw [List.mem_append, List.mem_append, or_comm]
      · obtain ⟨hle, hanswers⟩ := ih hlimit₂ hs₂ hno d' hd'
        have hnext := (hplace.grows.trans hout.grows).next_le
        refine ⟨Nat.le_trans hnext hle, hanswers.append_left fun y hy heq => ?_⟩
        have hlt := hs₂.idNumber_lt (hout.pending y hy).mem_ids
        rw [heq] at hlt
        exact absurd hlt (Nat.not_lt.mpr hle)

end Chain.Laid

/-- The merge point that collects the exits of a chain, if there are any. -/
def Chain.merge? (c : Chain) : Option Node :=
  if c.ends.isEmpty then none else some c.last.after.mergeNode

/-- A chain with a decision ends in its merge point. -/
theorem Chain.close_eq {c : Chain} (h : c.links ≠ []) :
    c.close = c.last.after.join c.ends ∧
      c.close.1 = (c.merge?.map fun m => Exit.plain m.id).toList := by
  have hclose : c.close = c.last.after.join c.ends :=
    if_neg fun hempty => h (List.isEmpty_iff.mp hempty)
  refine ⟨hclose, ?_⟩
  rw [hclose, merge?]
  by_cases hends : c.ends = []
  · rw [hends, join_nil]
    rfl
  · rw [join_of_ne_nil _ hends, if_neg fun hempty => hends (List.isEmpty_iff.mp hempty)]
    rfl

/-- What is known of a decision after the statement it belongs to: both answers have been linked,
and only the merge point of the chain is pending. -/
structure Decided (v : Visit) (c : Chain) (d : String) : Prop where
  le : v.before.next ≤ idNumber d
  answers : Answers v.after v.ends d
  ends_eq : v.ends = (c.merge?.map fun m => Exit.plain m.id).toList
  merge_mem : ∀ m ∈ c.merge?, m ∈ v.after.nodes ∧ idNumber d < idNumber m.id

/-- When a branch or a switch has been drawn, its decisions are decided. -/
theorem Visit.decided {v : Visit} {c : Chain} (h : v.chain? = some c) (hs : v.before.Sound)
    (hes : ∀ x ∈ v.exits, x.Pending v.before) {limit : Int}
    (hlimit : v.before.limit = some limit) : ∀ d ∈ c.decisions, Decided v c d := by
  intro d hd
  obtain ⟨hclose, hlaid, -⟩ := Visit.close_chain h
  have hlinks : c.links ≠ [] := by
    intro hnil
    rw [Chain.decisions, hnil] at hd
    exact absurd hd List.not_mem_nil
  obtain ⟨hjoin, hmerge⟩ := Chain.close_eq hlinks
  have hends : v.ends = (c.last.after.join c.ends).1 :=
    (congrArg Prod.fst hclose).trans (by rw [hjoin])
  have hafter : v.after = (c.last.after.join c.ends).2 :=
    (congrArg Prod.snd hclose).trans (by rw [hjoin])
  have hfrag := hlaid.fragment hs hes
  have hs' := hfrag.grows.sound hs
  obtain ⟨hle, hanswers⟩ := hlaid.answers hlimit hs hes d hd
  have hlt : idNumber d < c.last.after.next :=
    hs'.idNumber_lt (hanswers.pending (Exit.no d) (by simp)).mem_ids
  refine ⟨hle, ?_, (congrArg Prod.fst hclose).trans hmerge, fun m hm => ?_⟩
  · rw [hends, hafter]
    exact Answers.step (c := []) (hfrag.grows.context_eq.2.1.trans hlimit) hs' hfrag.pending
      (fun _ _ _ => List.not_mem_nil) hanswers (Fragment.join hs' hfrag.pending)
  · rw [Chain.merge?] at hm
    split_ifs at hm with hempty
    · exact absurd hm (Option.not_mem_none m)
    obtain rfl := Option.mem_some.mp hm
    have hne : c.ends ≠ [] := fun hnil => hempty (List.isEmpty_iff.mpr hnil)
    refine ⟨?_, ?_⟩
    · rw [hafter, join_nodes_of_ne_nil _ hne]
      exact List.mem_append_right _ (List.mem_singleton_self _)
    · rw [(Adds.merge c.last.after).number_eq]
      exact hlt

/-! ### Programs -/

/-- From `x` the end of a function is reached. -/
def Graph.ReachesTerminal (g : Graph) (x : String) : Prop :=
  ∃ n ∈ g.nodes, n.shape = .terminal ∧ g.Reaches x n.id

/-- An answer that is no longer pending is one edge, from which control goes on. -/
theorem Builder.Side.taken {b : Builder} {e : List Exit} {x : Exit} (h : Side b e x) (hx : x ∉ e) :
    ∃ t, LeadsOn b t e ∧ ∀ u, x.edgeTo b u ∈ b.edges ↔ u = t := by
  rcases h with ⟨hmem, -⟩ | ⟨-, hone⟩
  · exact absurd hmem hx
  · exact hone

/-- In a program, the edges from a decision are those of its statement. -/
theorem Decided.mem_edges {r : Block} {v : Visit} {c : Chain} {d : String} (h : Decided v c d)
    (hin : v.Within r) {w : Edge} (hw : w ∈ r.after.edges) (hsource : w.source = d) :
    w ∈ v.after.edges := by
  have hlt := ((v.drawn hin.sound hin.pending).segment.grows.sound hin.sound).idNumber_lt
    (h.answers.pending (Exit.no d) (by simp)).mem_ids
  rcases hin.framed.edge w hw with hw | ⟨-, houtside | ⟨x, hx, hnode⟩⟩
  · exact hw
  · rw [hsource] at houtside
    rcases houtside with houtside | houtside
    · exact absurd houtside (Nat.not_lt.mpr h.le)
    · exact absurd hlt (Nat.not_lt.mpr houtside)
  · rw [h.ends_eq] at hx
    cases hm : c.merge? with
    | none =>
        rw [hm] at hx
        exact absurd hx List.not_mem_nil
    | some m =>
        rw [hm] at hx
        obtain ⟨-, hlt⟩ := h.merge_mem m hm
        rw [← hsource, ← hnode, List.mem_singleton.mp hx] at hlt
        exact absurd hlt (Nat.lt_irrefl _)

/-- From where an answer leads, the end of a function is reached or the merge point of the chain. -/
theorem Decided.leads {v : Visit} {c : Chain} {d t : String} {b : Builder} (h : Decided v c d)
    (hkeep : Extends v.after b) (ht : LeadsOn v.after t v.ends) :
    b.build.ReachesTerminal t ∨ ∃ m ∈ c.merge?, m ∈ b.nodes ∧ b.build.Reaches t m.id := by
  rcases ht with ⟨n, hn, hshape, hreach⟩ | ⟨x, hx, hreach⟩
  · exact Or.inl ⟨n, hkeep.nodes_prefix.subset hn, hshape, hreach.mono hkeep.edges_prefix.subset⟩
  · rw [h.ends_eq, Option.mem_toList, Option.map_eq_some_iff] at hx
    obtain ⟨m, hm, rfl⟩ := hx
    exact Or.inr ⟨m, hm, hkeep.nodes_prefix.subset (h.merge_mem m hm).1,
      hreach.mono hkeep.edges_prefix.subset⟩

/-- The edges from a decision are one for each answer. -/
theorem Decided.outgoing_perm {r : Block} {v : Visit} {c : Chain} {d y z : String}
    (h : Decided v c d) (hin : v.Within r) (hnodup : r.after.edges.Nodup)
    (hyes : ∀ t, (Exit.yes d).edgeTo v.after t ∈ v.after.edges ↔ t = y)
    (hno : ∀ t, (Exit.no d).edgeTo v.after t ∈ v.after.edges ↔ t = z)
    (hne : (Exit.yes d).edgeTo v.after y ≠ (Exit.no d).edgeTo v.after z) :
    (r.after.build.outgoing d).Perm
      [(Exit.yes d).edgeTo v.after y, (Exit.no d).edgeTo v.after z] := by
  have hkeep : v.after.edges ⊆ r.after.edges := hin.framed.keeps.edges_prefix.subset
  refine (List.perm_ext_iff_of_nodup (hnodup.filter _)
    (List.nodup_cons.mpr ⟨by simpa using hne, List.nodup_singleton _⟩)).mpr fun w => ?_
  rw [List.mem_pair, List.mem_filter, beq_iff_eq]
  constructor
  · rintro ⟨hw, hsource⟩
    have hw' := h.mem_edges hin hw hsource
    obtain ⟨x, hx, t, rfl⟩ := h.answers.only w hw' hsource
    rcases List.mem_pair.mp hx with rfl | rfl
    · exact Or.inr (by rw [(hno t).mp hw'])
    · exact Or.inl (by rw [(hyes t).mp hw'])
  · rintro (rfl | rfl)
    · exact ⟨hkeep ((hyes y).mpr rfl), rfl⟩
    · exact ⟨hkeep ((hno z).mpr rfl), rfl⟩

/-- Every decision of a program belongs to a branch or a switch. It has two edges, one for each
answer; from where each of them leads, the end of a function is reached or the merge point of the
branch or switch, and if neither reaches the end of a function both reach the merge point. -/
theorem decisions_program (mode : LabelMode) (limit : Int) (stmts : List Stmt) :
    let r := Block.program mode (some limit) stmts
    let g := (lowerProgram stmts (Builder.empty mode (some limit))).2.build
    (∀ n ∈ g.nodes, n.shape = .decision →
        ∃ v c, Visits r v ∧ v.chain? = some c ∧ n.id ∈ c.decisions) ∧
      ∀ v c, Visits r v → v.chain? = some c → ∀ d ∈ c.decisions,
        (∃ n ∈ g.nodes, n.id = d ∧ n.shape = .decision) ∧
          ∃ y z, (g.outgoing d).Perm [⟨d, y, some (Label.sanitize mode limit "Yes"), .solid⟩,
              ⟨d, z, some (Label.sanitize mode limit "No"), .solid⟩] ∧
            (∀ t ∈ [y, z], g.ReachesTerminal t ∨ ∃ m ∈ c.merge?, m ∈ g.nodes ∧ g.Reaches t m.id) ∧
            (¬ g.ReachesTerminal y → ¬ g.ReachesTerminal z →
              ∃ m ∈ c.merge?, m ∈ g.nodes ∧ g.Reaches y m.id ∧ g.Reaches z m.id) := by
  intro r g
  set b := (lowerProgram stmts (Builder.empty mode (some limit))).2 with hb
  have hgrows : Grows (Builder.empty mode (some limit)) b := grows_program mode (some limit) stmts
  have hs : b.Sound := hgrows.sound (sound_empty mode (some limit))
  have hlimit : b.limit = some limit := hgrows.context_eq.2.1
  have hword : ∀ w ∈ Label.edgeWords,
      b.edgeLabel (some w) = some (Label.sanitize mode limit w) := by
    intro w hw
    rw [edgeLabel_word hlimit hw, hgrows.context_eq.1]
    rfl
  refine ⟨fun n hn hshape => ?_, fun v c hv hc d hd => ?_⟩
  · obtain ⟨v, hv, hown⟩ := exists_visit_owns hn
    obtain ⟨c, hc, hid⟩ := hown.1 hshape
    exact ⟨v, c, hv, hc, hid⟩
  have hin := hv.within_program
  have hdec := Visit.decided hc hin.sound hin.pending hin.entered.limit_eq d hd
  have hkeep : Extends v.after b := hin.framed.keeps
  have hsame : ∀ (x : Exit) (u : String), x.edgeTo b u = x.edgeTo v.after u := fun x u => by
    rw [Exit.edgeTo, Exit.edgeTo, hkeep.edgeLabel_eq]
  have hopen : ∀ x ∈ [Exit.no d, Exit.yes d], x ∉ v.ends := by
    intro x hx hmem
    rw [hdec.ends_eq, Option.mem_toList, Option.map_eq_some_iff] at hmem
    obtain ⟨m, -, rfl⟩ := hmem
    simp at hx
  obtain ⟨y, hy, hyes⟩ := hdec.answers.yes.taken (hopen _ (by simp))
  obtain ⟨z, hz, hno⟩ := hdec.answers.no.taken (hopen _ (by simp))
  have hyesEdge : (Exit.yes d).edgeTo v.after y =
      ⟨d, y, some (Label.sanitize mode limit "Yes"), .solid⟩ := by
    rw [← hsame, Exit.edgeTo, hword "Yes" (by decide)]
  have hnoEdge : (Exit.no d).edgeTo v.after z =
      ⟨d, z, some (Label.sanitize mode limit "No"), .solid⟩ := by
    rw [← hsame, Exit.edgeTo, hword "No" (by decide)]
  have hlead : ∀ t ∈ [y, z], g.ReachesTerminal t ∨
      ∃ m ∈ c.merge?, m ∈ g.nodes ∧ g.Reaches t m.id := by
    intro t ht
    rcases List.mem_pair.mp ht with rfl | rfl
    · exact hdec.leads hkeep hy
    · exact hdec.leads hkeep hz
  refine ⟨?_, y, z, ?_, hlead, fun hny hnz => ?_⟩
  · obtain ⟨n, hn, hid, hshape⟩ := hdec.answers.node_mem
    exact ⟨n, hkeep.nodes_prefix.subset hn, hid, hshape⟩
  · rw [← hyesEdge, ← hnoEdge]
    refine hdec.outgoing_perm hin hs.nodup_edges hyes hno ?_
    rw [hyesEdge, hnoEdge]
    intro heq
    have hlabel : Label.sanitize mode limit "Yes" = Label.sanitize mode limit "No" :=
      Option.some.inj (congrArg Edge.label heq)
    have hwords := Label.sanitize_injective mode limit (by decide) (by decide) hlabel
    exact absurd hwords (by decide)
  · obtain ⟨m, hm, hmem, hreach⟩ := (hlead y (by simp)).resolve_left hny
    obtain ⟨m', hm', -, hreach'⟩ := (hlead z (by simp)).resolve_left hnz
    obtain rfl := Option.mem_unique hm hm'
    exact ⟨m, hm, hmem, hreach, hreach'⟩

end Flowchart
