import Flowchart.Proofs.Growth
import Flowchart.Stmt.Lowering
import Mathlib.Logic.Relation

/-!
# The flow of control through a drawing

Drawing goes from one list of exits to another. `Fragment es b e b'` says what may be drawn that
is reached from the exits `es` in the builder `b` and goes on at the exits `e` in the builder
`b'`: every edge that is added ends in a new node, and either

* the fragment is `Passed`: it hands its exits on untouched and draws no edge from them; or
* it is `Linked` to a node `t`: every exit leads to `t` and to nothing else, and from `t` control
  goes on to the end of a function or to an exit of the fragment (`LeadsOn`).

Drawing statements is such a fragment with at most one exit of its own, an `Segment`. Both
compose. `Framed` says that a piece that has been drawn is left alone by what is drawn afterwards.
All statements about where edges start and end are statements about the numbers of ids.

## Numbers instead of graphs

Ids are numbered in the order in which they are drawn. A node that a fragment has drawn has a number
between those of the builders at its ends, and an exit of it has one too, or was an exit before. So
where an edge can start and end is a matter of comparing numbers (`idNumber`), and no proof about
fragments walks through a graph. Walks come in only at the end, where `LeadsOn` puts edges together.

## Main results

* `Segment.seq`: segments in a row are a segment.
* `Grows.linkAll`, `Grows.backAll`: edges that lead forward and back are growth.
* `Fragment.framed`: what was drawn before a fragment is left alone by it.
-/

namespace Flowchart

namespace Graph

/-- Some edge leads from `x` to `y`. -/
def Steps (g : Graph) (x y : String) : Prop := ∃ e ∈ g.edges, e.source = x ∧ e.target = y

/-- Edges lead from `x` to `y`. -/
def Reaches (g : Graph) : String → String → Prop := Relation.ReflTransGen g.Steps

/-- More edges reach as far. -/
theorem Reaches.mono {g g' : Graph} (h : g.edges ⊆ g'.edges) {x y : String}
    (hr : g.Reaches x y) : g'.Reaches x y := by
  induction hr with
  | refl => exact Relation.ReflTransGen.refl
  | tail _ hstep ih =>
      obtain ⟨e, he, hst⟩ := hstep
      exact ih.tail ⟨e, h he, hst⟩

end Graph

namespace Exit

/-- The unlabelled exit of a node. -/
abbrev plain (node : String) : Exit := ⟨node, none, .solid⟩

/-- The exit of a decision that says yes. -/
abbrev yes (node : String) : Exit := ⟨node, some "Yes", .solid⟩

/-- The exit of a decision that says no. -/
abbrev no (node : String) : Exit := ⟨node, some "No", .solid⟩

/-- The edge that an exit becomes. -/
def edgeTo (x : Exit) (b : Builder) (t : String) : Edge :=
  ⟨x.node, t, b.edgeLabel x.label, x.style⟩

/-- `x` is an exit of the node `n`: control can leave `n`, and a decision is left with an answer. -/
structure Leaves (x : Exit) (n : Node) : Prop where
  node_eq : n.id = x.node
  style_eq : x.style = .solid
  label_mem : x.label = none ∨ x.label = some "Yes" ∨ x.label = some "No"
  ne_terminal : n.shape ≠ .terminal
  ne_subgraph : n.shape ≠ .subgraph
  answer : n.shape = .decision → x.label ≠ none

/-- Control leaves a node that is no terminal, no subgraph and no decision by its plain exit. -/
theorem leaves_plain (n : Node) (h : n.shape ∉ [Shape.terminal, .subgraph, .decision]) :
    ∀ x ∈ [plain n.id], x.Leaves n := by
  simp only [List.mem_cons, List.not_mem_nil, or_false, not_or] at h
  intro x hx
  rw [List.mem_singleton.mp hx]
  exact ⟨rfl, rfl, Or.inl rfl, h.1, h.2.1, fun hd => absurd hd h.2.2⟩

/-- Control leaves a decision by both answers. -/
theorem leaves_answers (n : Node) (h : n.shape = .decision) :
    ∀ x ∈ [no n.id, yes n.id], x.Leaves n := by
  intro x hx
  rcases List.mem_pair.mp hx with rfl | rfl
  · exact ⟨rfl, rfl, Or.inr (Or.inr rfl), by simp [h], by simp [h], fun _ => Option.some_ne_none _⟩
  · exact ⟨rfl, rfl, Or.inr (Or.inl rfl), by simp [h], by simp [h], fun _ => Option.some_ne_none _⟩

/-- An exit of a node that is there. -/
def Pending (b : Builder) (x : Exit) : Prop := ∃ n ∈ b.nodes, x.Leaves n

/-- An exit that is pending belongs to a node that is there. -/
theorem Pending.mem_ids {b : Builder} {x : Exit} (h : x.Pending b) : x.node ∈ b.ids := by
  obtain ⟨n, hn, hx⟩ := h
  exact Builder.mem_ids.mpr ⟨n, hn, hx.node_eq⟩

/-- An exit that is pending stays so when nodes are added. -/
theorem Pending.mono {b b' : Builder} {x : Exit} (hsub : b.nodes ⊆ b'.nodes)
    (h : x.Pending b) : x.Pending b' := by
  obtain ⟨n, hn, hx⟩ := h
  exact ⟨n, hsub hn, hx⟩

/-- The label of an exit is one that an edge forward may carry. -/
theorem Pending.label_mem_forward {b : Builder} {x : Exit} (h : x.Pending b) :
    x.label ∈ Builder.forwardLabels := by
  obtain ⟨n, -, hx⟩ := h
  rcases hx.label_mem with hl | hl | hl <;> simp [hl, Builder.forwardLabels]

end Exit

namespace Builder

/-! ### Linking exits to a node -/

/-- The builder with an edge to `t` from every exit. -/
def linkAll (b : Builder) (es : List Exit) (t : String) : Builder := (Drawing.link es t b).2

/-- The builder with an edge back to the loop `head` from every exit of another node. -/
def backAll (b : Builder) (es : List Exit) (head : String) : Builder :=
  (Drawing.repeatTo head es b).2

section LinkAll
variable (b : Builder) (es : List Exit) (t : String)

/-- Without exits there are no edges. -/
@[simp] theorem linkAll_nil : b.linkAll [] t = b := rfl

/-- The exits are led to the node one after the other. -/
theorem linkAll_cons (x : Exit) :
    b.linkAll (x :: es) t = (b.addEdge x.node t x.label x.style).linkAll es t := rfl

/-- Edges to a node add no node. -/
@[simp] theorem linkAll_nodes : (b.linkAll es t).nodes = b.nodes := by
  induction es generalizing b with
  | nil => rfl
  | cons x es ih => rw [linkAll_cons, ih, addEdge_nodes]

/-- Edges to a node add no id. -/
@[simp] theorem linkAll_ids : (b.linkAll es t).ids = b.ids := by
  simp [ids]

end LinkAll

/-- Every exit becomes an edge, and nothing else is new. -/
theorem mem_linkAll_edges {b : Builder} {es : List Exit} {t : String}
    (hes : ∀ x ∈ es, x.node.isEmpty = false) (ht : t.isEmpty = false) {d : Edge} :
    d ∈ (b.linkAll es t).edges ↔ d ∈ b.edges ∨ ∃ x ∈ es, d = x.edgeTo b t := by
  induction es generalizing b with
  | nil => simp
  | cons x es ih =>
      have hlabel : ∀ y : Exit, y.edgeTo (b.addEdge x.node t x.label x.style) t = y.edgeTo b t := by
        intro y
        rw [Exit.edgeTo, Exit.edgeTo, edgeLabel_congr (addEdge_mode ..) (addEdge_limit ..)]
      rw [linkAll_cons, ih fun y hy => hes y (List.mem_cons_of_mem x hy),
        mem_addEdge_edges (hes x List.mem_cons_self) ht]
      simp only [hlabel, List.mem_cons, exists_eq_or_imp, or_assoc]
      rfl

/-- Linking exits that are pending to a later node is growth. -/
theorem Grows.linkAll {b : Builder} {es : List Exit} {t : String} (hes : ∀ x ∈ es, x.Pending b)
    (ht : t ∈ b.ids) (hlt : ∀ x ∈ es, idNumber x.node < idNumber t) : Grows b (b.linkAll es t) := by
  induction es generalizing b with
  | nil => exact Grows.refl b
  | cons x es ih =>
      have hx := hes x List.mem_cons_self
      rw [linkAll_cons]
      refine (Grows.forward x.style hx.mem_ids ht (hlt x List.mem_cons_self)
        hx.label_mem_forward).trans (ih ?_ ?_ ?_)
      · intro y hy
        exact (hes y (List.mem_cons_of_mem x hy)).mono (by simp)
      · simpa using ht
      · exact fun y hy => hlt y (List.mem_cons_of_mem x hy)

/-- The exits are led back one after the other, the head itself aside. -/
theorem backAll_cons (b : Builder) (x : Exit) (es : List Exit) (head : String) :
    b.backAll (x :: es) head =
      (if x.node = head then b
        else b.addEdge x.node head (some "Repeat") x.style).backAll es head := rfl

/-- Edges back add no node. -/
@[simp] theorem backAll_nodes (b : Builder) (es : List Exit) (head : String) :
    (b.backAll es head).nodes = b.nodes := by
  induction es generalizing b with
  | nil => rfl
  | cons x es ih =>
      rw [backAll_cons, ih]
      split_ifs
      · rfl
      · rw [addEdge_nodes]

/-- Every exit of a node other than the head becomes an edge back, and nothing else is new. -/
theorem mem_backAll_edges {b : Builder} {es : List Exit} {head : String}
    (hes : ∀ x ∈ es, x.node.isEmpty = false) (ht : head.isEmpty = false) {d : Edge} :
    d ∈ (b.backAll es head).edges ↔ d ∈ b.edges ∨
      ∃ x ∈ es, x.node ≠ head ∧ d = ⟨x.node, head, b.edgeLabel (some "Repeat"), x.style⟩ := by
  induction es generalizing b with
  | nil => simp [backAll, Drawing.repeatTo]
  | cons x es ih =>
      rw [backAll_cons, ih fun y hy => hes y (List.mem_cons_of_mem x hy)]
      by_cases hx : x.node = head
      · simp [hx]
      · rw [if_neg hx, mem_addEdge_edges (hes x List.mem_cons_self) ht,
          edgeLabel_congr (addEdge_mode ..) (addEdge_limit ..)]
        simp only [List.mem_cons, exists_eq_or_imp, or_assoc, hx, ne_eq, not_false_eq_true,
          true_and]

/-- Leading exits of later nodes back to the head of a loop is growth. -/
theorem Grows.backAll {b : Builder} {es : List Exit} {head : String}
    (hes : ∀ x ∈ es, x.node ∈ b.ids) (hhead : ∃ n ∈ b.nodes, n.id = head ∧ n.shape = .loop)
    (hlt : ∀ x ∈ es, x.node ≠ head → idNumber head < idNumber x.node) :
    Grows b (b.backAll es head) := by
  induction es generalizing b with
  | nil => exact Grows.refl b
  | cons x es ih =>
      rw [backAll_cons]
      by_cases hx : x.node = head
      · rw [if_pos hx]
        exact ih (fun y hy => hes y (List.mem_cons_of_mem x hy)) hhead
          fun y hy => hlt y (List.mem_cons_of_mem x hy)
      · rw [if_neg hx]
        refine (Grows.back x.style (hes x List.mem_cons_self) hhead
          (hlt x List.mem_cons_self hx)).trans (ih ?_ ?_ ?_)
        · intro y hy
          simpa using hes y (List.mem_cons_of_mem x hy)
        · simpa using hhead
        · exact fun y hy => hlt y (List.mem_cons_of_mem x hy)

/-! ### Where control goes -/

/-- Control goes on from `x` to the end of a function or to one of the exits. -/
def LeadsOn (b : Builder) (x : String) (e : List Exit) : Prop :=
  (∃ n ∈ b.nodes, n.shape = .terminal ∧ b.build.Reaches x n.id) ∨
    ∃ y ∈ e, b.build.Reaches x y.node

namespace LeadsOn

variable {b b' : Builder} {x : String} {e e' : List Exit}

/-- Control is at an exit of the fragment already. -/
theorem of_mem {y : Exit} (hy : y ∈ e) : LeadsOn b y.node e :=
  Or.inr ⟨y, hy, Relation.ReflTransGen.refl⟩

/-- Control goes on where it went on before, whatever is added. -/
theorem mono (hn : b.nodes ⊆ b'.nodes) (hd : b.edges ⊆ b'.edges) (he : e ⊆ e')
    (h : LeadsOn b x e) : LeadsOn b' x e' := by
  rcases h with ⟨n, hmem, hshape, hr⟩ | ⟨y, hy, hr⟩
  · exact Or.inl ⟨n, hn hmem, hshape, hr.mono hd⟩
  · exact Or.inr ⟨y, he hy, hr.mono hd⟩

/-- What leads on after some way leads on. -/
theorem of_reaches {y : String} (hr : b.build.Reaches x y) (h : LeadsOn b y e) :
    LeadsOn b x e := by
  rcases h with ⟨n, hmem, hshape, hr'⟩ | ⟨z, hz, hr'⟩
  · exact Or.inl ⟨n, hmem, hshape, hr.trans hr'⟩
  · exact Or.inr ⟨z, hz, hr.trans hr'⟩

/-- Exits that lead on themselves can be followed. -/
theorem bind (h : LeadsOn b x e) (hnext : ∀ y ∈ e, LeadsOn b y.node e') : LeadsOn b x e' := by
  rcases h with hterminal | ⟨y, hy, hr⟩
  · exact Or.inl hterminal
  · exact (hnext y hy).of_reaches hr

end LeadsOn

/-- The growth of a builder changes nothing about where control goes. -/
theorem Grows.leadsOn {b b' : Builder} (h : Grows b b') {x : String} {e e' : List Exit}
    (he : e ⊆ e') (hl : LeadsOn b x e) : LeadsOn b' x e' :=
  hl.mono h.nodes_prefix.subset h.edges_prefix.subset he

/-- The edge from an exit to a node is labelled in the same way later on. -/
theorem Grows.edgeTo_eq {b b' : Builder} (h : Grows b b') (x : Exit) (t : String) :
    x.edgeTo b' t = x.edgeTo b t := by
  rw [Exit.edgeTo, Exit.edgeTo, h.edgeLabel_eq]

end Builder

open Builder

/-! ### Fragments -/

/-- The fragment hands its exits on and draws no edge from them. -/
structure Passed (es : List Exit) (b : Builder) (e : List Exit) (b' : Builder) : Prop where
  ends_eq : e = es
  source : ∀ d ∈ b'.edges, d ∈ b.edges ∨ b.next ≤ idNumber d.source

/-- The fragment takes every exit to its node `t` and goes on from there, at exits of its own. -/
structure Linked (es : List Exit) (b : Builder) (t : String) (e : List Exit) (b' : Builder) :
    Prop where
  source : ∀ d ∈ b'.edges,
    d ∈ b.edges ∨ b.next ≤ idNumber d.source ∨ ∃ x ∈ es, d = x.edgeTo b t
  linked : ∀ x ∈ es, x.edgeTo b t ∈ b'.edges
  leads : es ≠ [] → LeadsOn b' t e
  fresh : ∀ x ∈ e, b.next ≤ idNumber x.node

/-- What may be drawn that is reached from `es` in `b` and goes on at `e` in `b'`. -/
structure Fragment (es : List Exit) (b : Builder) (e : List Exit) (b' : Builder) : Prop where
  grows : Grows b b'
  pending : ∀ x ∈ e, x.Pending b'
  target : ∀ d ∈ b'.edges, d ∈ b.edges ∨ b.next ≤ idNumber d.target
  flow : Passed es b e b' ∨ ∃ t, Linked es b t e b'

namespace Fragment

variable {es e e' : List Exit} {b b₁ b' : Builder}

/-- Nothing is drawn. -/
theorem refl (hes : ∀ x ∈ es, x.Pending b) : Fragment es b es b where
  grows := Grows.refl b
  pending := hes
  target := fun _ hd => Or.inl hd
  flow := Or.inl ⟨rfl, fun _ hd => Or.inl hd⟩

/-- A new edge starts at a new node or at one of the exits. -/
theorem source (h : Fragment es b e b') {d : Edge} (hd : d ∈ b'.edges) :
    d ∈ b.edges ∨ b.next ≤ idNumber d.source ∨ ∃ x ∈ es, x.node = d.source := by
  rcases h.flow with hp | ⟨t, hl⟩
  · exact (hp.source d hd).imp id Or.inl
  · rcases hl.source d hd with hd | hd | ⟨x, hx, rfl⟩
    · exact Or.inl hd
    · exact Or.inr (Or.inl hd)
    · exact Or.inr (Or.inr ⟨x, hx, rfl⟩)

/-- The exits are those from before, or exits of new nodes. -/
theorem ends (h : Fragment es b e b') {x : Exit} (hx : x ∈ e) :
    x ∈ es ∨ b.next ≤ idNumber x.node := by
  rcases h.flow with hp | ⟨t, hl⟩
  · exact Or.inl (hp.ends_eq ▸ hx)
  · exact Or.inr (hl.fresh x hx)

/-- From every exit control goes on. -/
theorem leadsOn (h : Fragment es b e b') {x : Exit} (hx : x ∈ es) : LeadsOn b' x.node e := by
  rcases h.flow with hp | ⟨t, hl⟩
  · exact LeadsOn.of_mem (hp.ends_eq ▸ hx)
  · exact (hl.leads (List.ne_nil_of_mem hx)).of_reaches
      (Relation.ReflTransGen.single ⟨_, hl.linked x hx, rfl, rfl⟩)

end Fragment

section Sequence

variable {es e e' : List Exit} {b b₁ b' : Builder} {t : String}

/-- Exits that are handed on twice are handed on. -/
theorem Passed.seq (h₁ : Passed es b e b₁) (hgrows : Grows b b₁) (h₂ : Passed e b₁ e' b') :
    Passed es b e' b' := by
  have hnext := hgrows.next_le
  refine ⟨h₂.ends_eq.trans h₁.ends_eq, fun d hd => ?_⟩
  rcases h₂.source d hd with hd | hd
  · exact h₁.source d hd
  · exact Or.inr (by omega)

/-- Exits that are handed on and then linked are linked. -/
theorem Passed.linked (h₁ : Passed es b e b₁) (hgrows : Grows b b₁) (h₂ : Linked e b₁ t e' b') :
    Linked es b t e' b' := by
  have hnext := hgrows.next_le
  obtain rfl := h₁.ends_eq
  refine ⟨fun d hd => ?_, fun x hx => ?_, h₂.leads, fun x hx => Nat.le_trans hnext (h₂.fresh x hx)⟩
  · rcases h₂.source d hd with hd | hd | ⟨x, hx, rfl⟩
    · exact (h₁.source d hd).imp id Or.inl
    · exact Or.inr (Or.inl (by omega))
    · exact Or.inr (Or.inr ⟨x, hx, hgrows.edgeTo_eq x t⟩)
  · rw [← hgrows.edgeTo_eq x t]
    exact h₂.linked x hx

/-- Exits that are linked stay linked while the drawing goes on. -/
theorem Linked.seq (h₁ : Linked es b t e b₁) (hgrows : Grows b b₁) (h₂ : Fragment e b₁ e' b') :
    Linked es b t e' b' := by
  have hnext := hgrows.next_le
  refine ⟨fun d hd => ?_, fun x hx => h₂.grows.mem_edges (h₁.linked x hx), fun hne => ?_,
    fun x hx => ?_⟩
  · rcases h₂.source hd with hd | hd | ⟨x, hx, hsource⟩
    · exact h₁.source d hd
    · exact Or.inr (Or.inl (by omega))
    · exact Or.inr (Or.inl (hsource ▸ h₁.fresh x hx))
  · exact (h₂.grows.leadsOn (List.Subset.refl e) (h₁.leads hne)).bind fun y hy => h₂.leadsOn hy
  · rcases h₂.ends hx with hx | hx
    · exact h₁.fresh x hx
    · omega

end Sequence

namespace Fragment

variable {es e e' : List Exit} {b b₁ b' : Builder}

/-- One fragment after another. -/
theorem seq (h₁ : Fragment es b e b₁) (h₂ : Fragment e b₁ e' b') : Fragment es b e' b' := by
  refine ⟨h₁.grows.trans h₂.grows, h₂.pending, fun d hd => ?_, ?_⟩
  · have hnext := h₁.grows.next_le
    rcases h₂.target d hd with hd | hd
    · exact h₁.target d hd
    · exact Or.inr (by omega)
  rcases h₁.flow with hp₁ | ⟨t, hl₁⟩
  · rcases h₂.flow with hp₂ | ⟨t, hl₂⟩
    · exact Or.inl (hp₁.seq h₁.grows hp₂)
    · exact Or.inr ⟨t, hp₁.linked h₁.grows hl₂⟩
  · exact Or.inr ⟨t, hl₁.seq h₁.grows h₂⟩

/-- A fragment that ends at the exits from before hands them on. -/
theorem passed (h : Fragment es b es b') (hs : b.Sound) (hes : ∀ x ∈ es, x.Pending b) :
    Passed es b es b' := by
  rcases h.flow with hp | ⟨t, hl⟩
  · exact hp
  refine ⟨rfl, fun d hd => ?_⟩
  rcases h.source hd with hd | hd | ⟨x, hx, -⟩
  · exact Or.inl hd
  · exact Or.inr hd
  · exact absurd (hl.fresh x hx) (Nat.not_le.mpr (hs.idNumber_lt (hes x hx).mem_ids))

/-- What nothing leads to has no exits worth keeping. -/
theorem drop (h : Fragment [] b e b') : Fragment [] b [] b' where
  grows := h.grows
  pending := by simp
  target := h.target
  flow := by
    refine Or.inl ⟨rfl, fun d hd => ?_⟩
    rcases h.source hd with hd | hd | ⟨x, hx, -⟩
    · exact Or.inl hd
    · exact Or.inr hd
    · exact absurd hx List.not_mem_nil

end Fragment

/-- What drawing statements does: a fragment with at most one exit of its own, an unlabelled one. -/
structure Segment (es : List Exit) (b : Builder) (e : List Exit) (b' : Builder) : Prop
    extends Fragment es b e b' where
  single : e = es ∨ e = [] ∨ ∃ id, e = [Exit.plain id]

namespace Segment

variable {es e e' : List Exit} {b b₁ b' : Builder}

/-- Where nothing is drawn, the exits are handed on. -/
theorem refl (hes : ∀ x ∈ es, x.Pending b) : Segment es b es b := ⟨Fragment.refl hes, Or.inl rfl⟩

/-- One segment after another. -/
theorem seq (h₁ : Segment es b e b₁) (h₂ : Segment e b₁ e' b') : Segment es b e' b' := by
  refine ⟨h₁.toFragment.seq h₂.toFragment, ?_⟩
  rcases h₂.single with rfl | h
  · exact h₁.single
  · exact Or.inr h

end Segment

/-! ### What drawing on leaves alone -/

/-- An id outside the numbers from `lo` up to `hi`. -/
def Outside (lo hi : Nat) (id : String) : Prop := idNumber id < lo ∨ hi ≤ idNumber id

/-- The piece with the numbers from `lo` on that ends in `b` at the exits `out` is left alone by
what is drawn up to `b'`: no new edge ends in it, and only its exits are taken. -/
structure Framed (lo : Nat) (out : List Exit) (b : Builder) (e : List Exit) (b' : Builder) :
    Prop where
  keeps : Extends b b'
  edge : ∀ d ∈ b'.edges, d ∈ b.edges ∨ Outside lo b.next d.target ∧
    (Outside lo b.next d.source ∨ ∃ x ∈ out, x.node = d.source)
  exit : ∀ x ∈ e, Outside lo b.next x.node ∨ x ∈ out

namespace Framed

variable {lo lo' : Nat} {out e e' : List Exit} {b b₁ b' : Builder}

/-- Where nothing is drawn, everything is left alone. -/
theorem refl (lo : Nat) (e : List Exit) (b : Builder) : Framed lo e b e b :=
  ⟨Extends.refl b, fun _ hd => Or.inl hd, fun _ hx => Or.inr hx⟩

/-- An edge into the piece is one of those from before. -/
theorem mem_edges (h : Framed lo out b e b') {d : Edge} (hd : d ∈ b'.edges)
    (hlo : lo ≤ idNumber d.target) (hlt : idNumber d.target < b.next) : d ∈ b.edges := by
  refine (h.edge d hd).resolve_right fun hout => ?_
  rcases hout.1 with hout | hout
  · exact absurd hout (Nat.not_lt.mpr hlo)
  · exact absurd hlt (Nat.not_lt.mpr hout)

/-- A piece may be taken to have more exits. -/
theorem widen {out' : List Exit} (h : Framed lo out b e b') (hout : out ⊆ out') :
    Framed lo out' b e b' where
  keeps := h.keeps
  edge := fun d hd => (h.edge d hd).imp id fun ⟨htarget, hsource⟩ =>
    ⟨htarget, hsource.imp id fun ⟨x, hx, hx'⟩ => ⟨x, hout hx, hx'⟩⟩
  exit := fun x hx => (h.exit x hx).imp id fun hx => hout hx

/-- What leaves a larger piece alone leaves alone what lies in it. -/
theorem trans (h : Framed lo out b e b₁) (hlo : lo' ≤ lo) (h' : Framed lo' e b₁ e' b') :
    Framed lo out b e' b' := by
  have hnext := h.keeps.next_le
  have hout : ∀ {id : String}, Outside lo' b₁.next id → Outside lo b.next id := fun hid =>
    hid.imp (fun hlt => Nat.lt_of_lt_of_le hlt hlo) (Nat.le_trans hnext)
  refine ⟨h.keeps.trans h'.keeps, fun d hd => ?_, fun x hx => ?_⟩
  · rcases h'.edge d hd with hd | ⟨htarget, hsource⟩
    · exact h.edge d hd
    · refine Or.inr ⟨hout htarget, ?_⟩
      rcases hsource with hsource | ⟨x, hx, hsource⟩
      · exact Or.inl (hout hsource)
      · rw [← hsource]
        exact (h.exit x hx).imp id fun hx => ⟨x, hx, rfl⟩
  · rcases h'.exit x hx with hx | hx
    · exact Or.inl (hout hx)
    · exact h.exit x hx

end Framed

/-- A fragment that goes on from the exits of a piece leaves the piece alone. -/
theorem Fragment.framed {es e : List Exit} {b b' : Builder} (h : Fragment es b e b') (lo : Nat) :
    Framed lo es b e b' where
  keeps := h.grows.extends
  edge := by
    intro d hd
    rcases h.target d hd with hd' | htarget
    · exact Or.inl hd'
    · rcases h.source hd with hd' | hsource | hsource
      · exact Or.inl hd'
      · exact Or.inr ⟨Or.inr htarget, Or.inl (Or.inr hsource)⟩
      · exact Or.inr ⟨Or.inr htarget, Or.inr hsource⟩
  exit := fun x hx => (h.ends hx).elim Or.inr fun hx => Or.inl (Or.inr hx)

end Flowchart
