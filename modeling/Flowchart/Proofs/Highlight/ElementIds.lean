import Flowchart.Proofs.Highlight.Targets
import Flowchart.Proofs.Identifier
import Mathlib.Data.List.TakeWhile

/-!
# Ids of drawn nodes

The element of a node is numbered: its id is `flowchart-`, the node's id, a hyphen and a number
(`isNumbered`). Reading a node back from the id of an element inverts this, except that a line feed at
the end of the id does not count (`isMadeFor_of_nodeOfElementId?`, `nodeOfElementId?_of_isMadeFor`).

Ids of graphs that are drawn from sources start with a capital, so the id of a node is never read as an
id that was made for another one (`IsId.nodeOfElementId?_eq_none`), and it is clear from the id and the
classes of an element whether it draws a given node (`HasNodeIds.standsFor_eq`).

## One line feed

Reading the node of an element looks at the id from its end: digits, a hyphen, and the rest between the
first hyphen and that one. The end of an id is taken to be before a line feed, if the id ends in one, so
each id has a twin with a line feed after it that is read as the same node (`isMadeFor`). The two forms
are kept apart: `isNumbered` is the one that drawings are made with.

## Main results

* `isMadeFor_of_nodeOfElementId?`, `nodeOfElementId?_of_isMadeFor`: which ids are read as a node's.
* `IsId.nodeOfElementId?_eq_none`: the id of a node is none of them.
* `HasNodeIds.standsFor_eq`: whether an element draws a node.
-/

namespace Flowchart

/-- Whether `id` is the id of an element made for the node: `flowchart-<node>-<digits>`, in the digits of
any script. -/
def isNumbered (node id : String) : Bool :=
  match ("flowchart-" ++ node ++ "-").toList.isPrefixOf? id.toList with
  | some digits => !digits.isEmpty && digits.all Text.isDigit
  | none => false

/-- Whether `id` is the id of an element made for the node, where one line feed may follow. -/
def isMadeFor (node id : String) : Bool :=
  isNumbered node id ||
    (id.toList.getLast? == some '\n' && isNumbered node (String.ofList id.toList.dropLast))

/-- A numbered id, written out. -/
theorem isNumbered_iff {node id : String} : isNumbered node id = true ↔
    ∃ digits, digits ≠ [] ∧ (∀ c ∈ digits, Text.isDigit c = true) ∧
      id.toList = "flowchart-".toList ++ (node.toList ++ '-' :: digits) := by
  have hprefix : ∀ digits : List Char, ("flowchart-" ++ node ++ "-").toList ++ digits =
      "flowchart-".toList ++ (node.toList ++ '-' :: digits) := fun digits => by
    rw [String.toList_append, String.toList_append, List.append_assoc, List.append_assoc]
    rfl
  rw [isNumbered]
  split
  next digits hdigits =>
    rw [List.isPrefixOf?_eq_some_iff_append_eq, hprefix] at hdigits
    constructor
    · intro h
      simp only [Bool.and_eq_true, Bool.not_eq_true', List.isEmpty_eq_false_iff,
        List.all_eq_true] at h
      exact ⟨digits, h.1, h.2, hdigits.symm⟩
    · rintro ⟨digits', hne, hall, heq⟩
      have hsame : digits' = digits := by simpa using heq.symm.trans hdigits.symm
      subst hsame
      simpa [hne] using hall
  next hnone =>
    refine iff_of_false Bool.noConfusion ?_
    rintro ⟨digits, -, -, heq⟩
    have hsome : ("flowchart-" ++ node ++ "-").toList.isPrefixOf? id.toList = some digits := by
      rw [List.isPrefixOf?_eq_some_iff_append_eq, hprefix, heq]
    exact absurd (hnone.symm.trans hsome) (by simp)

/-- An id that was made for a node is numbered, but for a line feed behind it. -/
theorem isMadeFor_iff {node id : String} : isMadeFor node id = true ↔
    ∃ digits feed, digits ≠ [] ∧ (∀ c ∈ digits, Text.isDigit c = true) ∧
      (feed = [] ∨ feed = ['\n']) ∧
      id.toList = "flowchart-".toList ++ (node.toList ++ '-' :: (digits ++ feed)) := by
  simp only [isMadeFor, Bool.or_eq_true, Bool.and_eq_true, beq_iff_eq, isNumbered_iff,
    String.toList_ofList]
  constructor
  · rintro (⟨digits, hne, hall, heq⟩ | ⟨hlast, digits, hne, hall, heq⟩)
    · exact ⟨digits, [], hne, hall, Or.inl rfl, by rwa [List.append_nil]⟩
    · obtain ⟨start, hstart⟩ := List.getLast?_eq_some_iff.mp hlast
      rw [hstart, List.dropLast_concat] at heq
      exact ⟨digits, ['\n'], hne, hall, Or.inr rfl, by rw [hstart, heq]; simp⟩
  · rintro ⟨digits, feed, hne, hall, rfl | rfl, heq⟩
    · exact Or.inl ⟨digits, hne, hall, by rwa [List.append_nil] at heq⟩
    · have hend : id.toList =
          ("flowchart-".toList ++ (node.toList ++ '-' :: digits)) ++ ['\n'] := by
        rw [heq]
        simp
      refine Or.inr ⟨?_, digits, hne, hall, ?_⟩
      · rw [hend, List.getLast?_concat]
      · rw [hend, List.dropLast_concat]

/-! ### Reading ids -/

/-- The digits at the end of a text that has a hyphen before them. -/
theorem takeWhile_append_hyphen {digits : List Char} (hall : ∀ c ∈ digits, Text.isDigit c = true)
    (node : List Char) : (digits ++ '-' :: node).takeWhile Text.isDigit = digits := by
  rw [List.takeWhile_append_of_pos hall, List.takeWhile_cons_of_neg (by decide), List.append_nil]

/-- A line feed at the end does not count. -/
theorem withoutFeed_reverse {start : List Char} (hstart : start.getLast? ≠ some '\n')
    {feed : List Char} (hfeed : feed = [] ∨ feed = ['\n']) :
    (if (start ++ feed).reverse.head? = some '\n' then (start ++ feed).reverse.tail
      else (start ++ feed).reverse) = start.reverse := by
  rcases hfeed with rfl | rfl
  · rw [List.append_nil, List.head?_reverse, if_neg hstart]
  · rw [List.reverse_append]
    rfl

/-- What a text begins with that may begin with a line feed. -/
theorem exists_feed (text : List Char) : ∃ feed, (feed = [] ∨ feed = ['\n']) ∧
    text = feed ++ (if text.head? = some '\n' then text.tail else text) := by
  split_ifs with hhead
  · obtain ⟨tail, rfl⟩ := List.head?_eq_some_iff.mp hhead
    exact ⟨['\n'], Or.inr rfl, rfl⟩
  · exact ⟨[], Or.inl rfl, rfl⟩

/-- The node that is read from an id is the one that the id was made for. -/
theorem isMadeFor_of_nodeOfElementId? {node id : String} (h : nodeOfElementId? id = some node) :
    isMadeFor node id = true := by
  rw [nodeOfElementId?] at h
  obtain ⟨rest, hrest, h⟩ := Option.bind_eq_some_iff.mp h
  rw [List.isPrefixOf?_eq_some_iff_append_eq] at hrest
  obtain ⟨feed, hfeeds, hsplit⟩ := exists_feed rest.reverse
  dsimp only at h
  generalize (if rest.reverse.head? = some '\n' then rest.reverse.tail else rest.reverse) = back
    at h hsplit
  have hall : ∀ c ∈ back.takeWhile Text.isDigit, Text.isDigit c = true := fun _ hc =>
    List.mem_takeWhile_imp hc
  obtain ⟨before, hbefore⟩ := List.takeWhile_prefix (l := back) Text.isDigit
  have hdrop : back.drop (back.takeWhile Text.isDigit).length = before :=
    (congrArg (List.drop _) hbefore.symm).trans List.drop_left
  rw [hdrop] at h
  generalize back.takeWhile Text.isDigit = digits at h hall hbefore
  subst hbefore
  split at h
  next start =>
    split_ifs at h with hempty
    simp only [Bool.or_eq_true, List.isEmpty_iff, not_or] at hempty
    have hstart : start.reverse = node.toList := by
      rw [← Option.some.inj h, String.toList_ofList]
    have hwritten : rest = node.toList ++ '-' :: (digits.reverse ++ feed.reverse) := by
      rw [← List.reverse_reverse rest, hsplit, ← hstart]
      simp
    have hfeeds' : feed.reverse = [] ∨ feed.reverse = ['\n'] := by
      rcases hfeeds with rfl | rfl
      · exact Or.inl rfl
      · exact Or.inr rfl
    exact isMadeFor_iff.mpr ⟨digits.reverse, feed.reverse, by simpa using hempty.1.1,
      fun c hc => hall c (List.mem_reverse.mp hc), hfeeds', by rw [← hrest, hwritten]⟩
  next => exact absurd h (by simp)

/-- The node that an id was made for is read from it. -/
theorem nodeOfElementId?_of_isMadeFor {node id : String} (hne : node ≠ "")
    (hfeed : '\n' ∉ node.toList) (h : isMadeFor node id = true) :
    nodeOfElementId? id = some node := by
  obtain ⟨digits, feed, hdigits, hall, hfeeds, heq⟩ := isMadeFor_iff.mp h
  have hrest : "flowchart-".toList.isPrefixOf? id.toList =
      some ((node.toList ++ '-' :: digits) ++ feed) := by
    rw [List.isPrefixOf?_eq_some_iff_append_eq, heq]
    simp
  have hlast : (node.toList ++ '-' :: digits).getLast? ≠ some '\n' := by
    obtain ⟨start, c, rfl⟩ : ∃ start c, digits = start ++ [c] :=
      ⟨_, _, (List.dropLast_concat_getLast hdigits).symm⟩
    rw [← List.cons_append, ← List.append_assoc, List.getLast?_concat]
    intro hc
    have hdigit := hall c (by simp)
    rw [Option.some.inj hc] at hdigit
    exact absurd hdigit (by decide)
  have hback : (node.toList ++ '-' :: digits).reverse =
      digits.reverse ++ '-' :: node.toList.reverse := by simp
  have htake : (digits.reverse ++ '-' :: node.toList.reverse).takeWhile Text.isDigit =
      digits.reverse :=
    takeWhile_append_hyphen (fun c hc => hall c (List.mem_reverse.mp hc)) node.toList.reverse
  have hdrop : (digits.reverse ++ '-' :: node.toList.reverse).drop digits.reverse.length =
      '-' :: node.toList.reverse := List.drop_left
  have hkeep : (digits.reverse.isEmpty || node.toList.reverse.isEmpty ||
      node.toList.reverse.contains '\n') = false := by
    simp [hdigits, hne, hfeed]
  rw [nodeOfElementId?, hrest]
  simp only [Option.bind_eq_bind, Option.bind_some, withoutFeed_reverse hlast hfeeds, hback, htake,
    hdrop, hkeep]
  simp

/-! ### Ids of graphs drawn from sources -/

/-- The ids of nodes are of the form of ids, and no two nodes have one. -/
structure HasNodeIds (g : Graph) : Prop where
  isId : ∀ n ∈ g.nodes, IsId n.id
  nodup : (g.nodes.map (·.id)).Nodup

/-- An id is not empty. -/
theorem IsId.ne_empty {id : String} (h : IsId id) : id ≠ "" := by
  obtain ⟨first, last, middle, heq, -⟩ := h
  rintro rfl
  exact absurd heq (by simp)

/-- An id has no line feed in it. -/
theorem IsId.not_mem_feed {id : String} (h : IsId id) : '\n' ∉ id.toList := fun hmem =>
  absurd (h.isIdChar '\n' hmem) (by decide)

/-- The id of a node is not read as one that was made for a node. -/
theorem IsId.nodeOfElementId?_eq_none {id : String} (h : IsId id) : nodeOfElementId? id = none := by
  obtain ⟨first, last, middle, heq, hupper, -⟩ := h
  have hprefix : "flowchart-".toList.isPrefixOf? id.toList = none := by
    cases hrest : "flowchart-".toList.isPrefixOf? id.toList with
    | none => rfl
    | some rest =>
        rw [List.isPrefixOf?_eq_some_iff_append_eq] at hrest
        have hfirst : 'f' = first := (List.cons.inj (hrest.trans heq)).1
        rw [← hfirst] at hupper
        exact absurd hupper (by decide)
  rw [nodeOfElementId?, hprefix]
  rfl

/-- Whether an element draws a node, where `form` says which ids are made for which node: by the node's
own id it has to be a cluster of a subgraph, by an id made for the node it may also be a node. -/
def drawnBy (form : String → String → Bool) (n : Node) (e : Element) : Bool :=
  (e.attr? "id").any fun id =>
    ((id == n.id || form n.id id) && n.shape == .subgraph && e.hasClass "cluster") ||
      (form n.id id && e.hasClass "node")

section NodeIds

variable {g : Graph} {n : Node}

/-- A node is found by its id. -/
theorem HasNodeIds.find?_eq (hg : HasNodeIds g) (hn : n ∈ g.nodes) :
    (g.nodes.reverse.find? fun m => m.id == n.id) = some n := by
  obtain ⟨m, hm⟩ : ∃ m, (g.nodes.reverse.find? fun m => m.id == n.id) = some m := by
    rw [← Option.isSome_iff_exists, List.find?_isSome]
    exact ⟨n, List.mem_reverse.mpr hn, beq_self_eq_true _⟩
  have hid : m.id = n.id := by simpa using List.find?_some hm
  have hmem : m ∈ g.nodes := List.mem_reverse.mp (List.mem_of_find?_eq_some hm)
  rw [hm, List.inj_on_of_nodup_map hg.nodup hmem hn hid]

/-- An element stands for the node that its id names, if it draws that node. -/
theorem HasNodeIds.any_nodeOf? (hg : HasNodeIds g) (hn : n ∈ g.nodes) {e : Element} {id : String}
    (hid : e.attr? "id" = some id) (hne : id ≠ "") :
    standsFor g n.id e = ((nodeOfElementId? id).getD id == n.id &&
      draws n (nodeOfElementId? id).isSome e) := by
  have hnode : nodeOf? g e = (g.nodes.reverse.find? fun m =>
      m.id == (nodeOfElementId? id).getD id).bind fun m =>
        if draws m (nodeOfElementId? id).isSome e then some m else none := by
    have hempty : id.isEmpty = false := by simpa using hne
    rw [nodeOf?, hid]
    simp only [Option.bind_eq_bind, Option.bind_some, hempty, Bool.false_eq_true, if_false]
    rfl
  rw [standsFor, hnode]
  by_cases hsame : (nodeOfElementId? id).getD id = n.id
  · rw [hsame, hg.find?_eq hn, Option.bind_some, beq_self_eq_true, Bool.true_and]
    cases hdraws : draws n (nodeOfElementId? id).isSome e <;> simp
  · rw [beq_eq_false_iff_ne.mpr hsame, Bool.false_and]
    cases hfound : g.nodes.reverse.find? fun m => m.id == (nodeOfElementId? id).getD id with
    | none => rfl
    | some m =>
        have hm : m.id = (nodeOfElementId? id).getD id := by simpa using List.find?_some hfound
        rw [Option.bind_some]
        split_ifs
        · simp [hm, hsame]
        · rfl

/-- Which nodes an element stands for. -/
theorem HasNodeIds.standsFor_eq (hg : HasNodeIds g) (hn : n ∈ g.nodes) (e : Element) :
    standsFor g n.id e = drawnBy isMadeFor n e := by
  have hisId := hg.isId n hn
  have hmade : ∀ id, nodeOfElementId? id = some n.id ↔ isMadeFor n.id id = true := fun id =>
    ⟨isMadeFor_of_nodeOfElementId?, nodeOfElementId?_of_isMadeFor hisId.ne_empty hisId.not_mem_feed⟩
  cases hid : e.attr? "id" with
  | none => simp [standsFor, nodeOf?, drawnBy, hid]
  | some id =>
      by_cases hne : id = ""
      · subst hne
        have hnone : isMadeFor n.id "" = false := by
          rw [Bool.eq_false_iff, ne_eq, ← hmade]
          exact (Option.some_ne_none _).symm
        simp [standsFor, nodeOf?, drawnBy, hid, hnone, hisId.ne_empty.symm]
      rw [hg.any_nodeOf? hn hid hne, drawnBy, hid, Option.any_some]
      cases hform : isMadeFor n.id id with
      | true =>
          rw [(hmade id).mpr hform]
          simp [draws]
      | false =>
          cases hread : nodeOfElementId? id with
          | none => simp [draws, Bool.and_assoc]
          | some k =>
              have hk : k ≠ n.id := fun heq => by
                rw [heq, hmade, hform] at hread
                exact Bool.noConfusion hread
              have hown : id ≠ n.id := fun heq => by
                rw [heq, hisId.nodeOfElementId?_eq_none] at hread
                exact absurd hread (by simp)
              simp [beq_eq_false_iff_ne.mpr hk, beq_eq_false_iff_ne.mpr hown]

end NodeIds

end Flowchart
