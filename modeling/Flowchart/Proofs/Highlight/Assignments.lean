import Flowchart.Proofs.Highlight.Values
import Flowchart.Proofs.Text.Words

/-!
# Labels that assign

The label of an assignment starts with the name of a variable, and what follows decides about the name.
Before an equals sign it is what the statement assigns to, so it stays in the label and the note lists it
with its value. An operator that computes before it assigns does not stop the name from being a name that
is read: where one of `computing` stands before the equals sign, the value takes the place of the name.

## Names within names

Which name a label starts with is a question of all the names that have a value: in `self.x = 1` a
variable `self` stands before the dot, and it is a name that is read. So the results ask that the name
*leads* the text (`Leads`), which is to say that no other one stands at the start of the text, and for a
name that stays that it does so *whole* (`LeadsWhole`), which is to say that no other one stands within
it either. Among names of word characters each one does (`leadsWhole_of_plain`), and so does any name of
which no other name is a part (`leadsWhole_of_infix`), a dotted one included.

## Main results

* `target_kept_showStep`: before an equals sign the name stays in the label and the note lists it.
* `target_replaced_showStep`: before each operator of `computing` the value takes its place.
* `showStep_changing`: two labels for which that is so.
-/

namespace Flowchart

open Element Substitution

/-! ### Names at the start of a text -/

namespace Substitution

/-- The name leads the text `name ++ after`: it starts with a word character, and no other one of the
names stands at the start of the text. -/
structure Leads (names : List (List Char)) (name after : List Char) : Prop where
  starts : Text.wordAt name.head? = true
  alone : ∀ other after', Stands names [] other after' → other ++ after' = name ++ after → other = name

/-- The name leads the text `name ++ after`, and none of the names stands within it. -/
structure LeadsWhole (names : List (List Char)) (name after : List Char) : Prop
    extends Leads names name after where
  within : ∀ past rest other after', name = past ++ rest → past ≠ [] → rest ≠ [] →
    rest ++ after = other ++ after' → ¬ Stands names past other after'

variable {names : List (List Char)} {name after first : List Char}
  {found : List (List Char × List Char)}

/-- A name that starts with a word character is not empty. -/
theorem Leads.ne_nil (h : Leads names name after) : name ≠ [] := by
  rintro rfl
  exact Bool.noConfusion h.starts

/-- At the start of a text there is a boundary before the name that leads it. -/
theorem Leads.boundary_head? (h : Leads names name after) :
    Text.boundary none name.head? = true := by
  rw [Text.boundary, h.starts]
  rfl

/-- Within a word there is no boundary. -/
theorem boundary_eq_false_of_plain (h : Text.IsPlainWord name) {past rest : List Char}
    (hcut : name = past ++ rest) (hpast : past ≠ []) (hrest : rest ≠ []) (more : List Char) :
    Text.boundary past.getLast? (rest ++ more).head? = false := by
  have hbefore : Text.wordAt past.getLast? = true := by
    rw [List.getLast?_eq_some_getLast hpast]
    exact h.isWord _ (hcut ▸ List.mem_append_left _ (List.getLast_mem hpast))
  have hafter : Text.wordAt (rest ++ more).head? = true := by
    obtain ⟨c, tail, rfl⟩ := List.exists_cons_of_ne_nil hrest
    exact h.isWord c (hcut ▸ List.mem_append_right _ List.mem_cons_self)
  rw [Text.boundary, hbefore, hafter]
  rfl

/-- A name of word characters leads a text whole if no longer name starts there. -/
theorem leadsWhole_of_longest (hplain : Text.IsPlainWord name)
    (hlongest : ∀ other ∈ names, other <+: name ++ after → other.length ≤ name.length) :
    LeadsWhole names name after := by
  have hstarts := hplain.wordAt_head? []
  rw [List.append_nil] at hstarts
  refine ⟨⟨hstarts, fun other after' hother heq => ?_⟩, ?_⟩
  · have hle := hlongest other hother.mem ⟨after', heq⟩
    obtain ⟨tail, rfl⟩ := List.prefix_of_prefix_length_le ⟨after', heq⟩
      (List.prefix_append name after) hle
    obtain rfl : tail = [] := by
      by_contra htail
      rw [List.append_assoc, List.append_cancel_left_eq] at heq
      have hends := hother.ends
      rw [heq, boundary_eq_false_of_plain hplain rfl hother.ne_nil htail] at hends
      exact Bool.noConfusion hends
    exact (List.append_nil other).symm
  · intro past rest other after' hcut hpast hrest heq hother
    have hbefore := hother.starts
    rw [← List.head?_append_of_ne_nil other hother.ne_nil, ← heq,
      boundary_eq_false_of_plain hplain hcut hpast hrest] at hbefore
    exact Bool.noConfusion hbefore

/-- Among names of word characters each one leads a text whole, if no word character follows it. -/
theorem leadsWhole_of_plain (hnames : ∀ other ∈ names, Text.IsPlainWord other) (hmem : name ∈ names)
    (hends : Text.wordAt after.head? = false) : LeadsWhole names name after := by
  refine leadsWhole_of_longest (hnames name hmem) fun other hother hprefix => ?_
  rcases List.prefix_or_prefix_of_prefix hprefix (List.prefix_append name after) with hle | hle
  · exact hle.length_le
  · obtain ⟨tail, rfl⟩ := hle
    obtain ⟨rest, rfl⟩ := (List.prefix_append_right_inj name).mp hprefix
    cases tail with
    | nil => rw [List.append_nil]
    | cons c tail =>
        have hword := (hnames _ hother).isWord c (List.mem_append_right name List.mem_cons_self)
        exact absurd (hword.symm.trans hends) Bool.noConfusion

/-- A name in which the character after a word does not occur ends within that word. -/
theorem prefix_of_not_mem {rest other after' : List Char} (hout : ∀ c ∈ after.head?, c ∉ other)
    (heq : rest ++ after = other ++ after') : other <+: rest := by
  rcases List.append_eq_append_iff.mp heq with ⟨more, rfl, hafter⟩ | ⟨more, rfl, -⟩
  · cases more with
    | nil => rw [List.append_nil]
    | cons c more =>
        have hmem : c ∈ rest ++ c :: more := List.mem_append_right rest List.mem_cons_self
        exact absurd hmem (hout c (by rw [hafter]; rfl))
  · exact List.prefix_append other more

/-- A name of which no other name is a part leads a text whole, if the character that follows it
occurs in no name. -/
theorem leadsWhole_of_infix (hstarts : Text.wordAt name.head? = true)
    (hout : ∀ other ∈ names, ∀ c ∈ after.head?, c ∉ other)
    (hparts : ∀ other ∈ names, other <:+: name → other = name) : LeadsWhole names name after := by
  refine ⟨⟨hstarts, fun other after' hother heq => ?_⟩, ?_⟩
  · exact hparts other hother.mem (prefix_of_not_mem (hout other hother.mem) heq.symm).isInfix
  · intro past rest other after' hcut hpast _ heq hother
    obtain ⟨more, rfl⟩ := prefix_of_not_mem (hout other hother.mem) heq
    have hname := hparts other hother.mem ⟨past, more, by rw [List.append_assoc, hcut]⟩
    have hlength := congrArg List.length hcut
    rw [hname, List.length_append, List.length_append] at hlength
    exact hpast (List.length_eq_zero_iff.mp (by omega))

/-- A dotted name leads a label that assigns to it if neither part of it has a value. -/
example : LeadsWhole ["self.x".toList, "y".toList] "self.x".toList " = y".toList :=
  leadsWhole_of_infix (by decide) (by simp) (by decide)

/-- A name that is assigned to is no name that is replaced. -/
theorem LeadsWhole.prefix_of_assigns (h : LeadsWhole names name after) (hassigns : Assigns after)
    (htext : name ++ after = first ++ flat found) (hreplaces : Replaces names [] first found) :
    name <+: first := by
  by_contra hout
  have hshort : first.length < name.length := by
    refine Nat.lt_of_not_le fun hle => hout ?_
    exact List.prefix_of_prefix_length_le ⟨_, htext⟩ (List.prefix_append _ _) hle
  cases found with
  | nil =>
      have hlength := congrArg List.length htext
      rw [List.length_append, flat, List.flatMap_nil, List.append_nil] at hlength
      omega
  | cons p found =>
      obtain ⟨other, next⟩ := p
      obtain ⟨-, hlongest, -⟩ := hreplaces
      obtain ⟨rest, rfl⟩ : first <+: name :=
        List.prefix_of_prefix_length_le ⟨_, htext.symm⟩ (List.prefix_append _ _)
          (Nat.le_of_lt hshort)
      rw [flat_cons, List.append_assoc, List.append_cancel_left_eq] at htext
      have hrest : rest ≠ [] := fun hnil => by simp [hnil] at hshort
      by_cases hfirst : first = []
      · subst hfirst
        obtain rfl := h.alone other _ hlongest.toStands htext.symm
        obtain rfl := List.append_cancel_left htext
        exact hlongest.free hassigns
      · exact h.within first rest other _ rfl hfirst hrest htext hlongest.toStands

/-- A name that is not assigned to is replaced. -/
theorem Leads.found_of_not_assigns (h : Leads names name after) (hmem : name ∈ names)
    (hlast : Text.wordAt name.getLast? = true) (hends : Text.wordAt after.head? = false)
    (hfree : ¬ Assigns after) (htext : name ++ after = first ++ flat found)
    (hreplaces : Replaces names [] first found) :
    first = [] ∧ ∃ next rest, found = (name, next) :: rest := by
  have hstands : Stands names [] name after :=
    ⟨hmem, h.ne_nil, h.boundary_head?, by rw [Text.boundary, hlast, hends]; rfl, hfree⟩
  have hfirst : ∀ {more}, Quiet names [] first more → name ++ after = first ++ more → first = [] := by
    intro more hquiet heq
    by_contra hne
    exact hquiet [] first name after rfl hne heq.symm hstands
  have hlength := List.length_pos_iff.mpr h.ne_nil
  cases found with
  | nil =>
      have hnil := hfirst hreplaces htext
      rw [hnil] at htext
      have hempty := congrArg List.length htext
      rw [List.length_append, flat, List.flatMap_nil, List.nil_append, List.length_nil] at hempty
      omega
  | cons p found =>
      obtain ⟨other, next⟩ := p
      obtain ⟨hquiet, hlongest, -⟩ := hreplaces
      obtain rfl := hfirst hquiet htext
      rw [flat_cons] at htext
      obtain rfl := h.alone other _ hlongest.toStands htext.symm
      exact ⟨rfl, next, found, rfl⟩

/-- The operators that may stand before the equals sign of an assignment. -/
def computing : List String := ["+", "-", "*", "/", "//", "%", "**", "<<", ">>", "&", "|", "^"]

/-- What follows the name of a variable that a computing operator changes is no assignment to it. -/
theorem not_assigns_of_computing {blanks : List Char} (hblanks : ∀ c ∈ blanks, Text.isBlank c = true)
    {op : String} (hop : op ∈ computing) (rest : List Char) :
    ¬ Assigns (blanks ++ (op.toList ++ rest)) ∧
      Text.wordAt (blanks ++ (op.toList ++ rest)).head? = false := by
  obtain ⟨c, tail, hcut, hblank, hne, hword⟩ : ∃ c tail, op.toList = c :: tail ∧
      Text.isBlank c = false ∧ c ≠ '=' ∧ Text.isWord c = false := by
    have hall : (computing.all fun op => op.toList.head?.any fun c =>
        !Text.isBlank c && c != '=' && !Text.isWord c) = true := by decide
    obtain ⟨c, hhead, hc⟩ := (Option.any_eq_true _ _).mp (List.all_eq_true.mp hall op hop)
    simp only [Bool.and_eq_true, Bool.not_eq_true', bne_iff_ne, and_assoc] at hc
    exact ⟨c, _, (List.cons_head?_tail hhead).symm, hc⟩
  rw [hcut, List.cons_append]
  constructor
  · rw [← assignmentFollows_iff, assignmentFollows, List.dropWhile_append_of_pos hblanks,
      List.dropWhile_cons_of_neg (by rw [hblank]; exact Bool.noConfusion)]
    split
    next heq => exact absurd (List.cons.inj heq).1 hne
    next => exact Bool.noConfusion
  · cases blanks with
    | nil => exact hword
    | cons b blanks => exact Text.isWord_eq_false_of_isBlank (hblanks b List.mem_cons_self)

end Substitution

/-! ### Assignments in labels -/

section Label

variable {look : Look} {name value : String} {after : List Char} {text : String} {label : Element}

/-- The name stays in the label, and the note lists it. -/
theorem Lettered.target_kept (h : Lettered look text label) (hvar : (name, value) ∈ look.bindings)
    (htext : text.toList = name.toList ++ after)
    (hleads : LeadsWhole (namesOf look.bindings) name.toList after) (hassigns : Assigns after) :
    ∃ (kept : List Char) (found : List (List Char × List Char)), text.toList = kept ++ flat found ∧
      name.toList <+: kept ∧ label.text = some (String.ofList kept) ∧
      label.children = found.map (look.valuePart label) ++ [look.notePart label (look.listed text)] ∧
      (name, value) ∈ look.listed text := by
  obtain ⟨kept, found, hcut, hreplaces, -, hkept, hchildren⟩ := h
  have hlisted : (name, value) ∈ look.listed text := by
    have hne : name.toList ≠ [] := hleads.ne_nil
    have hfirst : IsAssigned name.toList text.toList :=
      ⟨hne, [], after, htext, hleads.boundary_head?, hassigns⟩
    have hnamed : name ≠ "" := fun heq => hne (String.toList_eq_nil_iff.mpr heq)
    exact List.mem_filter.mpr ⟨hvar, decide_eq_true ⟨hnamed, Or.inr hfirst⟩⟩
  rw [if_neg (List.ne_nil_of_mem hlisted)] at hchildren
  have hprefix := hleads.prefix_of_assigns hassigns (htext ▸ hcut) hreplaces
  exact ⟨kept, found, hcut, hprefix, hkept, hchildren, hlisted⟩

/-- The value takes the place of the name. -/
theorem Lettered.target_replaced (h : Lettered look text label)
    (hvar : (name, value) ∈ look.bindings) (htext : text.toList = name.toList ++ after)
    (hleads : Leads (namesOf look.bindings) name.toList after)
    (hlast : Text.wordAt name.toList.getLast? = true)
    (hends : Text.wordAt after.head? = false) (hfree : ¬ Assigns after) :
    label.text = some "" ∧ ∃ next rest,
      label.children = look.valuePart label (name.toList, next) :: rest := by
  obtain ⟨first, found, hcut, hreplaces, -, hfirst, hchildren⟩ := h
  obtain ⟨rfl, next, rest, rfl⟩ := hleads.found_of_not_assigns
    (List.mem_map.mpr ⟨(name, value), hvar, rfl⟩) hlast hends hfree (htext ▸ hcut) hreplaces
  exact ⟨hfirst, next, _, hchildren⟩

end Label

open Highlighter

/-- Whatever a highlighter was told since it got its drawing, the name of a variable that a label assigns
to stays in the label of a node that is highlighted, and the note below lists it with its value. -/
theorem target_kept_showStep (h₀ : Highlighter) (g : Graph) (d : Element) (events : List Event)
    (line : Int) {bindings : List Binding} {t : Target} (ht : t ∈ targetsIn g d) {p : Path}
    (hp : t.label = some p) {first : Element} (hfirst : d.at? p = some first)
    (hapart : ∀ u ∈ targetsIn g d, ∀ q ∈ u.label, q <+: p ∨ p <+: q → q = p)
    {name value : String} (hvar : (name, value) ∈ bindings) {blanks after : List Char}
    (hblanks : ∀ c ∈ blanks, Text.isBlank c = true) (hafter : after.head? ≠ some '=')
    (htext : (plainText first).toList = name.toList ++ (blanks ++ '=' :: after))
    (hleads : LeadsWhole (namesOf bindings) name.toList (blanks ++ '=' :: after)) :
    let h := ((h₀.graphReady d g).after events).showStep line bindings
    let look : Look := ⟨h.theme, h₀.inputs, bindings⟩
    t.node ∈ h.highlighted → ∃ shown label kept found, h.drawing = some shown ∧
      shown.at? p = some label ∧ (plainText first).toList = kept ++ flat found ∧
      name.toList <+: kept ∧ label.text = some (String.ofList kept) ∧
      label.children = found.map (look.valuePart label) ++
        [look.notePart label (look.listed (plainText first))] ∧
      (name, value) ∈ look.listed (plainText first) := by
  intro h look hmem
  obtain ⟨shown, label, hshown, hlabel, -, hlettered⟩ :=
    (holds_graphReady h₀ ht hp hfirst hapart).lettered_after events line (List.ne_nil_of_mem hvar) hmem
  obtain ⟨kept, found, hkept⟩ :=
    hlettered.target_kept hvar htext hleads ⟨blanks, after, rfl, hblanks, hafter⟩
  exact ⟨shown, label, kept, found, hshown, hlabel, hkept⟩

/-- After `twoSteps`, in the label `x = y` of the first of the two nodes the name `x` stays. -/
theorem target_kept_showStep_twoNodes :
    let h := ((({} : Highlighter).graphReady twoNodesDrawn twoNodes).after twoSteps).showStep 1
      [("x", "2"), ("y", "3")]
    "L1_1" ∈ h.highlighted ∧ ∃ shown label kept, h.drawing = some shown ∧
      shown.at? [0, 1, 0] = some label ∧ label.text = some (String.ofList kept) ∧
      "x".toList <+: kept := by
  intro h
  obtain ⟨t, ht, hnode, hlabel⟩ : ∃ t ∈ targetsIn twoNodes twoNodesDrawn,
      t.node = "L1_1" ∧ t.label = some [0, 1, 0] := by decide +kernel
  obtain ⟨first, hfirst, htext⟩ : ∃ first, twoNodesDrawn.at? [0, 1, 0] = some first ∧
      (plainText first).toList = "x".toList ++ ([' '] ++ '=' :: [' ', 'y']) :=
    ⟨_, rfl, by decide +kernel⟩
  have hmem : "L1_1" ∈ h.highlighted := by decide +kernel
  have hnames : ∀ other ∈ namesOf [("x", "2"), ("y", "3")], Text.IsPlainWord other :=
    List.forall_mem_cons.mpr ⟨⟨by decide, List.all_eq_true.mp (by decide)⟩,
      List.forall_mem_singleton.mpr ⟨by decide, List.all_eq_true.mp (by decide)⟩⟩
  obtain ⟨shown, label, kept, -, hshown, hat, -, hprefix, hkept, -, -⟩ :=
    target_kept_showStep {} twoNodes twoNodesDrawn twoSteps 1 ht hlabel hfirst (by decide +kernel)
      (List.mem_cons_self : ("x", "2") ∈ [("x", "2"), ("y", "3")])
      (List.forall_mem_singleton.mpr (by decide)) (by decide) htext
      (leadsWhole_of_plain hnames (by decide) (by decide)) (hnode ▸ hmem)
  exact ⟨hmem, shown, label, kept, hshown, hat, hkept, hprefix⟩

/-- Where an operator computes before it assigns, the value takes the place of the name. -/
theorem target_replaced_showStep (h₀ : Highlighter) (g : Graph) (d : Element) (events : List Event)
    (line : Int) {bindings : List Binding} {t : Target} (ht : t ∈ targetsIn g d) {p : Path}
    (hp : t.label = some p) {first : Element} (hfirst : d.at? p = some first)
    (hapart : ∀ u ∈ targetsIn g d, ∀ q ∈ u.label, q <+: p ∨ p <+: q → q = p)
    {name value : String} (hvar : (name, value) ∈ bindings) {blanks after : List Char}
    (hblanks : ∀ c ∈ blanks, Text.isBlank c = true) {op : String} (hop : op ∈ computing)
    (htext : (plainText first).toList = name.toList ++ (blanks ++ (op.toList ++ '=' :: after)))
    (hleads : Leads (namesOf bindings) name.toList (blanks ++ (op.toList ++ '=' :: after)))
    (hlast : Text.wordAt name.toList.getLast? = true) :
    let h := ((h₀.graphReady d g).after events).showStep line bindings
    let look : Look := ⟨h.theme, h₀.inputs, bindings⟩
    t.node ∈ h.highlighted → ∃ shown label next rest, h.drawing = some shown ∧
      shown.at? p = some label ∧ label.text = some "" ∧
      label.children = look.valuePart label (name.toList, next) :: rest := by
  intro h look hmem
  obtain ⟨shown, label, hshown, hlabel, -, hlettered⟩ :=
    (holds_graphReady h₀ ht hp hfirst hapart).lettered_after events line (List.ne_nil_of_mem hvar) hmem
  obtain ⟨hfree, hends⟩ := not_assigns_of_computing hblanks hop ('=' :: after)
  obtain ⟨hempty, next, rest, hchildren⟩ :=
    hlettered.target_replaced hvar htext hleads hlast hends hfree
  exact ⟨shown, label, next, rest, hshown, hlabel, hempty, hchildren⟩

/-- Two statements that change variables. -/
def changingNodes : Graph where
  nodes := [⟨"L1_1", .process, "x += 1", some 1, none, "x += 1"⟩,
    ⟨"L2_2", .process, "$x = 1", some 2, none, "$x = 1"⟩]

/-- A drawing of them. -/
def changingDrawn : Element :=
  ⟨some "svg", [], none, none, [
    ⟨some "g", [("id", "flowchart-L1_1-0"), ("class", "node")], none, none, [
      ⟨some "text", [], some "x += 1", none, []⟩]⟩,
    ⟨some "g", [("id", "flowchart-L2_2-1"), ("class", "node")], none, none, [
      ⟨some "text", [], some "$x = 1", none, []⟩]⟩]⟩

/-- The value of a variable that is added to takes the place of its name, and no note lists it; a name
that does not start with a word character is not listed either. -/
theorem showStep_changing :
    let start := ({} : Highlighter).graphReady changingDrawn changingNodes
    let added := start.showStep 1 [("x", "3")]
    let dollar := start.showStep 2 [("$x", "1")]
    "L1_1" ∈ added.highlighted ∧
      (∃ label ∈ changingDrawn.at? [0, 0], plainText label = "x += 1") ∧
      (∃ label ∈ added.drawing.bind (·.at? [0, 0]), label.text = some "" ∧
        label.children.map (fun part => (part.text, part.tail)) = [(some "3", some " += 1")]) ∧
      "L2_2" ∈ dollar.highlighted ∧
      (∃ label ∈ changingDrawn.at? [1, 0], plainText label = "$x = 1") ∧
      (∃ label ∈ dollar.drawing.bind (·.at? [1, 0]), label.children.length = 0) := by
  decide +kernel

end Flowchart
