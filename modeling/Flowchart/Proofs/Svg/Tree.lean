import Flowchart.Svg.Element
import Mathlib.Data.List.Infix

/-!
# Places in a drawing

An element is known from what stands at each way down from it (`Element.eq_of_heads`), so a change is
described by what it does at every way: `mapAll` changes each element by itself
(`Element.at?_mapAll`), `modifyAt` changes one element with everything in it and leaves all others as
they are (`Element.at?_modifyAt_append`, `Element.map_head_at?_modifyAt`).

A change of the elements of a drawing is `Shallow` if it neither reads nor changes what is in them. Two
shallow changes can be made one after the other or in one go (`Element.mapAll_mapAll`).

The elements in document order are those at the ways down (`Element.mem_descendants`).

## Ways down

A place in a drawing is the list of positions of children on the way down to it (`Path`). Two places are
apart if neither way is a part of the other. What is done to the element at one place is seen at the
places below it, at the place itself, and above it only in so far as children are part of an element.
`Element.head` is an element without its children, and a change at one place leaves the heads of all
places that are not below it.

## Main results

* `Element.eq_of_heads`: two elements with the same heads at all ways down are the same.
* `Element.at?_mapAll`, `Element.map_head_at?_modifyAt`: what stands at a way after a change.
* `Element.modifyAt_modifyAt`, `Element.mapAll_modifyAt`: changes that can be made in either order.
* `Element.label?_mapAll`: a change of names and classes aside does not move labels.
-/

namespace Flowchart

namespace Element

/-- What holds of an element as soon as it holds of its children holds of all elements. -/
theorem induction {P : Element → Prop} (h : ∀ e, (∀ c ∈ e.children, P c) → P e) (e : Element) :
    P e := by
  refine @Element.rec P (fun es => ∀ c ∈ es, P c)
    (fun tag attrs text tail children ih => h ⟨tag, attrs, text, tail, children⟩ ih) (by simp)
    (fun c cs hc hcs => ?_) e
  intro x hx
  rcases List.mem_cons.mp hx with rfl | hx
  · exact hc
  · exact hcs x hx

/-- An element without its children. -/
def head (e : Element) : Element := { e with children := [] }

/-! ### Ways down -/

/-- At the empty way stands the element itself. -/
@[simp] theorem at?_nil (e : Element) : e.at? [] = some e := by rw [at?]

/-- A way goes to one of the elements in an element, and on from there. -/
theorem at?_cons (e : Element) (i : Nat) (path : Path) :
    e.at? (i :: path) = e.children[i]?.bind (·.at? path) := by
  rw [at?]
  cases e.children[i]? <;> rfl

/-- One way after another. -/
theorem at?_append (e : Element) (p q : Path) : e.at? (p ++ q) = (e.at? p).bind (·.at? q) := by
  induction p generalizing e with
  | nil => rfl
  | cons i p ih =>
      rw [List.cons_append, at?_cons, at?_cons, Option.bind_assoc]
      exact congrArg _ (funext ih)

/-- An element is known from what stands at the ways down. -/
theorem eq_of_heads {e e' : Element} (h : ∀ p, (e.at? p).map head = (e'.at? p).map head) : e = e' := by
  induction e using induction generalizing e' with
  | h e ih =>
      have hhead : head e = head e' := Option.some.inj (by simpa using h [])
      have hchild : ∀ i : Nat, e.children[i]? = e'.children[i]? := by
        intro i
        have hstep : ∀ p, (e.children[i]?.bind (·.at? p)).map head =
            (e'.children[i]?.bind (·.at? p)).map head := fun p => by
          rw [← at?_cons, ← at?_cons]
          exact h (i :: p)
        cases hc : e.children[i]? with
        | none =>
            cases hc' : e'.children[i]? with
            | none => rfl
            | some c' =>
                have hnone := hstep []
                rw [hc, hc'] at hnone
                exact absurd hnone (by simp)
        | some c =>
            cases hc' : e'.children[i]? with
            | none =>
                have hnone := hstep []
                rw [hc, hc'] at hnone
                exact absurd hnone (by simp)
            | some c' =>
                rw [ih c (List.mem_of_getElem? hc) fun p => by simpa [hc, hc'] using hstep p]
      have hchildren : e.children = e'.children := List.ext_getElem? hchild
      obtain ⟨tag, attrs, text, tail, children⟩ := e
      obtain ⟨tag', attrs', text', tail', children'⟩ := e'
      simp only [head, Element.mk.injEq, and_true] at hhead
      obtain ⟨rfl, rfl, rfl, rfl⟩ := hhead
      exact congrArg _ hchildren

/-! ### Changing every element -/

/-- A change of an element that neither reads nor changes its children. -/
def Shallow (f : Element → Element) : Prop :=
  ∀ (e : Element) (children : List Element),
    f { e with children := children } = { f e with children := children }

/-- Two shallow changes make one. -/
theorem Shallow.comp {f g : Element → Element} (hf : Shallow f) (hg : Shallow g) :
    Shallow (f ∘ g) := fun e children => by
  rw [Function.comp_apply, hg, hf, Function.comp_apply]

/-- A shallow change leaves what is in an element as it is. -/
theorem Shallow.children_eq {f : Element → Element} (hf : Shallow f) (e : Element) :
    (f e).children = e.children := by
  obtain ⟨tag, attrs, text, tail, children⟩ := e
  have h := hf ⟨tag, attrs, text, tail, children⟩ children
  rw [h]

/-- What a shallow change does to the head of an element it does to the element. -/
theorem Shallow.head_eq {f : Element → Element} (hf : Shallow f) (e : Element) :
    head (f e) = f (head e) := by
  rw [head, head, hf]

/-- Changing each of some elements is changing them as a list. -/
theorem mapEach_eq_map (f : Element → Element) (es : List Element) :
    mapEach f es = es.map (mapAll f) := by
  induction es with
  | nil => rw [mapEach, List.map_nil]
  | cons e es ih => rw [mapEach, ih, List.map_cons]

/-- An element is changed after all that is in it. -/
theorem mapAll_eq (f : Element → Element) (e : Element) :
    mapAll f e = f { e with children := e.children.map (mapAll f) } := by
  obtain ⟨tag, attrs, text, tail, children⟩ := e
  rw [mapAll, mapEach_eq_map]

section Shallow

variable {f g : Element → Element}

/-- What is in an element is changed with it. -/
theorem children_mapAll (hf : Shallow f) (e : Element) :
    (mapAll f e).children = e.children.map (mapAll f) := by
  rw [mapAll_eq, hf]

/-- The head of an element is changed as the element is. -/
theorem head_mapAll (hf : Shallow f) (e : Element) : head (mapAll f e) = f (head e) := by
  rw [mapAll_eq, hf, ← hf.head_eq]
  rfl

/-- A shallow change changes each element where it stands. -/
theorem at?_mapAll (hf : Shallow f) (e : Element) (p : Path) :
    (mapAll f e).at? p = (e.at? p).map (mapAll f) := by
  induction p generalizing e with
  | nil => rfl
  | cons i p ih =>
      rw [at?_cons, at?_cons, children_mapAll hf, List.getElem?_map]
      cases e.children[i]? with
      | none => rfl
      | some c => exact ih c

/-- At every way the head is changed as the elements are. -/
theorem map_head_at?_mapAll (hf : Shallow f) (e : Element) (p : Path) :
    ((mapAll f e).at? p).map head = ((e.at? p).map head).map f := by
  rw [at?_mapAll hf, Option.map_map, Option.map_map]
  exact congrArg₂ _ (funext (head_mapAll hf)) rfl

/-- Shallow changes that agree on all elements of a drawing change it alike. -/
theorem mapAll_congr (hf : Shallow f) (hg : Shallow g) {e : Element}
    (h : ∀ p x, e.at? p = some x → f x = g x) : mapAll f e = mapAll g e := by
  refine eq_of_heads fun p => ?_
  rw [map_head_at?_mapAll hf, map_head_at?_mapAll hg]
  cases hx : e.at? p with
  | none => rfl
  | some x =>
      rw [Option.map_some, Option.map_some, Option.map_some, ← hf.head_eq, ← hg.head_eq, h p x hx]

/-- Two shallow changes one after the other are one. -/
theorem mapAll_mapAll (hf : Shallow f) (hg : Shallow g) (e : Element) :
    mapAll f (mapAll g e) = mapAll (f ∘ g) e := by
  refine eq_of_heads fun p => ?_
  rw [map_head_at?_mapAll hf, map_head_at?_mapAll hg, map_head_at?_mapAll (hf.comp hg),
    Option.map_map]

/-- Changing nothing everywhere changes nothing. -/
theorem mapAll_id (e : Element) : mapAll id e = e := by
  refine eq_of_heads fun p => ?_
  rw [map_head_at?_mapAll (f := id) (fun _ _ => rfl), Option.map_id_fun, id]

/-- A shallow change that changes no element of a drawing leaves it as it is. -/
theorem mapAll_eq_self (hf : Shallow f) {e : Element} (h : ∀ p x, e.at? p = some x → f x = x) :
    mapAll f e = e :=
  (mapAll_congr hf (g := id) (fun _ _ => rfl) h).trans (mapAll_id e)

end Shallow

/-! ### Changing one element -/

section ModifyAt

variable {f g : Element → Element}

/-- At the empty way the element itself is changed. -/
@[simp] theorem modifyAt_nil (e : Element) (f : Element → Element) : e.modifyAt [] f = f e := by
  rw [modifyAt]

/-- Further down one of the elements in it is. -/
theorem modifyAt_cons (e : Element) (i : Nat) (p : Path) (f : Element → Element) :
    e.modifyAt (i :: p) f = { e with children := e.children.modify i (·.modifyAt p f) } := by
  rw [modifyAt]

/-- Changing an element below another is a change of the other. -/
theorem modifyAt_append (e : Element) (p q : Path) (f : Element → Element) :
    e.modifyAt (p ++ q) f = e.modifyAt p (·.modifyAt q f) := by
  induction p generalizing e with
  | nil => simp
  | cons i p ih =>
      rw [List.cons_append, modifyAt_cons, modifyAt_cons]
      exact congrArg (fun h => { e with children := e.children.modify i h }) (funext ih)

/-- The changed element, and what is in it. -/
theorem at?_modifyAt_append (e : Element) (p q : Path) (f : Element → Element) :
    (e.modifyAt p f).at? (p ++ q) = ((e.at? p).map f).bind (·.at? q) := by
  induction p generalizing e with
  | nil => simp
  | cons i p ih =>
      rw [List.cons_append, modifyAt_cons, at?_cons, at?_cons, List.getElem?_modify]
      cases e.children[i]? with
      | none => rfl
      | some c => simpa using ih c

/-- Where an element was changed, the changed one stands. -/
theorem at?_modifyAt_self (e : Element) (p : Path) (f : Element → Element) :
    (e.modifyAt p f).at? p = (e.at? p).map f := by
  have h := at?_modifyAt_append e p [] f
  rw [List.append_nil] at h
  rw [h]
  cases e.at? p <;> rfl

/-- An element that stands neither above the changed one nor in it is as it was. -/
theorem at?_modifyAt_of_apart (e : Element) {p q : Path} (f : Element → Element) (hpq : ¬ p <+: q)
    (hqp : ¬ q <+: p) : (e.modifyAt p f).at? q = e.at? q := by
  induction p generalizing e q with
  | nil => exact absurd q.nil_prefix hpq
  | cons i p ih =>
      cases q with
      | nil => exact absurd (List.nil_prefix) hqp
      | cons j q =>
          rw [modifyAt_cons, at?_cons, at?_cons, List.getElem?_modify]
          cases e.children[j]? with
          | none => rfl
          | some c =>
              by_cases hij : i = j
              · subst hij
                rw [List.cons_prefix_cons, and_iff_right rfl] at hpq hqp
                simpa using ih c hpq hqp
              · simp [hij]

/-- Outside the changed element every element keeps its head. -/
theorem map_head_at?_modifyAt (e : Element) {p q : Path} (f : Element → Element) (hpq : ¬ p <+: q) :
    ((e.modifyAt p f).at? q).map head = (e.at? q).map head := by
  induction p generalizing e q with
  | nil => exact absurd q.nil_prefix hpq
  | cons i p ih =>
      cases q with
      | nil => simp [modifyAt_cons, head]
      | cons j q =>
          rw [modifyAt_cons, at?_cons, at?_cons, List.getElem?_modify]
          cases e.children[j]? with
          | none => rfl
          | some c =>
              by_cases hij : i = j
              · subst hij
                rw [List.cons_prefix_cons, and_iff_right rfl] at hpq
                simpa using ih c hpq
              · simp [hij]

/-- Changes that agree on the element at a way change it alike there. -/
theorem modifyAt_congr {e : Element} {p : Path} (h : ∀ x, e.at? p = some x → f x = g x) :
    e.modifyAt p f = e.modifyAt p g := by
  refine eq_of_heads fun q => ?_
  by_cases hpq : p <+: q
  · obtain ⟨r, rfl⟩ := hpq
    rw [at?_modifyAt_append, at?_modifyAt_append]
    cases hx : e.at? p with
    | none => rfl
    | some x => rw [Option.map_some, Option.map_some, h x hx]
  · rw [map_head_at?_modifyAt e f hpq, map_head_at?_modifyAt e g hpq]

/-- A change that leaves the element at a way as it is changes nothing. -/
theorem modifyAt_eq_self {e : Element} {p : Path} (h : ∀ x, e.at? p = some x → f x = x) :
    e.modifyAt p f = e := by
  refine eq_of_heads fun q => ?_
  by_cases hpq : p <+: q
  · obtain ⟨r, rfl⟩ := hpq
    rw [at?_modifyAt_append, at?_append]
    cases hx : e.at? p with
    | none => rfl
    | some x => rw [Option.map_some, h x hx]
  · rw [map_head_at?_modifyAt e f hpq]

/-- Two changes of one element are one. -/
theorem modifyAt_modifyAt (e : Element) (p : Path) (f g : Element → Element) :
    (e.modifyAt p f).modifyAt p g = e.modifyAt p (g ∘ f) := by
  refine eq_of_heads fun q => ?_
  by_cases hpq : p <+: q
  · obtain ⟨r, rfl⟩ := hpq
    rw [at?_modifyAt_append, at?_modifyAt_append, at?_modifyAt_self, Option.map_map]
  · rw [map_head_at?_modifyAt _ g hpq, map_head_at?_modifyAt e f hpq,
      map_head_at?_modifyAt e _ hpq]

/-- A shallow change after the change of one element is that change after the shallow one, if the two
commute on that element. -/
theorem mapAll_modifyAt {s : Element → Element} (hs : Shallow s) {e : Element} {p : Path}
    (h : ∀ x, e.at? p = some x → mapAll s (f x) = g (mapAll s x)) :
    mapAll s (e.modifyAt p f) = (mapAll s e).modifyAt p g := by
  refine eq_of_heads fun q => ?_
  by_cases hpq : p <+: q
  · obtain ⟨r, rfl⟩ := hpq
    rw [at?_mapAll hs, at?_modifyAt_append, at?_modifyAt_append, at?_mapAll hs]
    cases hx : e.at? p with
    | none => rfl
    | some x =>
        rw [Option.map_some, Option.bind_some, Option.map_some, Option.map_some, Option.bind_some,
          ← h x hx, at?_mapAll hs]
  · rw [map_head_at?_mapAll hs, map_head_at?_modifyAt e f hpq, map_head_at?_modifyAt _ g hpq,
      map_head_at?_mapAll hs]

end ModifyAt

/-! ### Document order -/

/-- The elements in an element are those at the ways down. -/
theorem mem_walk {here p : Path} {e x : Element} :
    (p, x) ∈ walk here e ↔ ∃ q, p = here.reverse ++ q ∧ e.at? q = some x := by
  induction e using induction generalizing here with
  | h e ih =>
      have hall : ∀ (es : List Element) (i : Nat), (∀ c ∈ es, c ∈ e.children) →
          ((p, x) ∈ walkAll here i es ↔
            ∃ j q, p = here.reverse ++ (i + j) :: q ∧ es[j]?.bind (·.at? q) = some x) := by
        intro es
        induction es with
        | nil => simp [walkAll]
        | cons c cs ihcs =>
            intro i hes
            rw [walkAll, List.mem_append, ih c (hes c List.mem_cons_self),
              ihcs (i + 1) fun y hy => hes y (List.mem_cons_of_mem c hy)]
            constructor
            · rintro (⟨q, rfl, hq⟩ | ⟨j, q, rfl, hq⟩)
              · exact ⟨0, q, by simp, by simpa using hq⟩
              · exact ⟨j + 1, q, by rw [Nat.add_right_comm]; rfl, by simpa using hq⟩
            · rintro ⟨j, q, rfl, hq⟩
              cases j with
              | zero => exact Or.inl ⟨q, by simp, by simpa using hq⟩
              | succ j => exact Or.inr ⟨j, q, by rw [Nat.add_right_comm]; rfl, by simpa using hq⟩
      obtain ⟨tag, attrs, text, tail, children⟩ := e
      rw [walk, List.mem_cons, hall children 0 fun _ h => h]
      constructor
      · rintro (h | ⟨j, q, rfl, hq⟩)
        · obtain ⟨rfl, rfl⟩ := Prod.mk.inj h
          exact ⟨[], by simp, by simp⟩
        · exact ⟨j :: q, by simp, by rwa [at?_cons]⟩
      · rintro ⟨q, rfl, hq⟩
        cases q with
        | nil => exact Or.inl (by simpa [Prod.ext_iff, eq_comm] using hq)
        | cons j q => exact Or.inr ⟨j, q, by simp, by rwa [at?_cons] at hq⟩

/-- The elements in document order are those at the ways down, each with its way. -/
theorem mem_descendants {e x : Element} {p : Path} : (p, x) ∈ e.descendants ↔ e.at? p = some x := by
  rw [descendants, mem_walk]
  simp

/-- The first element with a property stands at the way to it. -/
theorem at?_of_find? {P : Element → Bool} {e : Element} {p : Path} (h : e.find? P = some p) :
    ∃ x, e.at? p = some x ∧ P x = true := by
  obtain ⟨d, hfound, rfl⟩ := Option.map_eq_some_iff.mp h
  exact ⟨d.2, mem_descendants.mp (List.mem_of_find?_eq_some hfound), by
    simpa using List.find?_some hfound⟩

/-- There is an element at the way that always takes the first child. -/
theorem exists_at?_descend (e : Element) : ∃ x, e.at? e.descend = some x := by
  induction e using induction with
  | h e ih =>
      obtain ⟨tag, attrs, text, tail, children⟩ := e
      match children with
      | [] => exact ⟨_, by rw [descend]; exact at?_nil _; exact nofun⟩
      | [c] =>
          rw [descend]
          split_ifs
          · exact ⟨_, at?_nil _⟩
          · obtain ⟨x, hx⟩ := ih c (List.mem_singleton_self c)
            exact ⟨x, by simpa [at?_cons] using hx⟩
      | c :: c' :: cs => exact ⟨_, by rw [descend]; exact at?_nil _; simp⟩

/-- The way to a label leads to an element. -/
theorem exists_at?_of_label? {e : Element} {p : Path} (h : e.label? = some p) :
    ∃ x, e.at? p = some x := by
  rw [label?] at h
  split at h
  next path label hfound =>
    have hlabel := mem_descendants.mp (List.mem_of_find?_eq_some hfound)
    split at h
    next inner hinner =>
      obtain ⟨x, hx, -⟩ := at?_of_find? hinner
      exact ⟨x, by rw [← Option.some.inj h, at?_append, hlabel]; exact hx⟩
    next =>
      obtain ⟨x, hx⟩ := exists_at?_descend label
      exact ⟨x, by rw [← Option.some.inj h, at?_append, hlabel]; exact hx⟩
  next =>
    obtain ⟨x, hx, -⟩ := at?_of_find? h
    exact ⟨x, hx⟩

/-! ### Document order after a change -/

section Order

variable {f : Element → Element}

/-- A walk visits an element before what is in it. -/
theorem walk_eq (here : Path) (e : Element) :
    e.walk here = (here.reverse, e) :: walkAll here 0 e.children := by
  obtain ⟨tag, attrs, text, tail, children⟩ := e
  rw [walk]

/-- A shallow change keeps the order of the elements, and the ways to them. -/
theorem walk_mapAll (hf : Shallow f) (here : Path) (e : Element) :
    (mapAll f e).walk here = (e.walk here).map fun place => (place.1, mapAll f place.2) := by
  induction e using induction generalizing here with
  | h e ih =>
      have hall : ∀ (es : List Element) (i : Nat), (∀ c ∈ es, c ∈ e.children) →
          walkAll here i (es.map (mapAll f)) =
            (walkAll here i es).map fun place => (place.1, mapAll f place.2) := by
        intro es
        induction es with
        | nil => exact fun _ _ => by simp [walkAll]
        | cons c cs ihcs =>
            intro i hes
            rw [List.map_cons, walkAll, walkAll, List.map_append,
              ih c (hes c List.mem_cons_self),
              ihcs (i + 1) fun y hy => hes y (List.mem_cons_of_mem c hy)]
      rw [walk_eq, walk_eq, children_mapAll hf, hall e.children 0 fun _ h => h, List.map_cons]

/-- A shallow change keeps the order of the elements and their ways. -/
theorem descendants_mapAll (hf : Shallow f) (e : Element) :
    (mapAll f e).descendants = e.descendants.map fun place => (place.1, mapAll f place.2) :=
  walk_mapAll hf [] e

/-- What is found by what a change keeps is found at the same place. -/
theorem find?_descendants_mapAll (hf : Shallow f) {P : Element → Bool}
    (hP : ∀ x, P (mapAll f x) = P x) (e : Element) :
    (mapAll f e).descendants.find? (fun place => P place.2) =
      (e.descendants.find? fun place => P place.2).map fun place => (place.1, mapAll f place.2) := by
  rw [descendants_mapAll hf, List.find?_map]
  exact congrArg (Option.map _ <| e.descendants.find? ·) (funext fun place => hP place.2)

/-- An element that is found by what a change keeps is found at the same way afterwards. -/
theorem find?_mapAll (hf : Shallow f) {P : Element → Bool} (hP : ∀ x, P (mapAll f x) = P x)
    (e : Element) : (mapAll f e).find? P = e.find? P := by
  rw [find?, find?_descendants_mapAll hf hP, Option.map_map]
  rfl

/-- A shallow change that keeps tags and classes, by which labels are found. -/
structure KeepsLabels (f : Element → Element) : Prop where
  shallow : Shallow f
  tag_eq : ∀ e, (f e).tag = e.tag
  class_eq : ∀ e, (f e).attr? "class" = e.attr? "class"

/-- An attribute that no change touches is as it was. -/
theorem attr?_mapAll {key : String} (hkey : ∀ e, (f e).attr? key = e.attr? key) (e : Element) :
    (mapAll f e).attr? key = e.attr? key := by
  rw [mapAll_eq, hkey]
  rfl

/-- The way that always takes the first child, one step down. -/
theorem descend_eq (e : Element) : e.descend =
    match e.children with
    | [c] => if c.name == "br" then [] else 0 :: c.descend
    | _ => [] := by
  obtain ⟨tag, attrs, text, tail, children⟩ := e
  match children with
  | [] => rw [descend]; simp
  | [c] => rw [descend]
  | c :: c' :: cs => rw [descend]; simp

namespace KeepsLabels

/-- A change that keeps labels keeps names. -/
theorem name_mapAll (hf : KeepsLabels f) (e : Element) : (mapAll f e).name = e.name := by
  rw [name, mapAll_eq, hf.tag_eq, name]

/-- A change that keeps labels keeps classes. -/
theorem hasClass_mapAll (hf : KeepsLabels f) (e : Element) (cls : String) :
    (mapAll f e).hasClass cls = e.hasClass cls := by
  rw [hasClass, attr?_mapAll hf.class_eq, hasClass]

/-- A shallow change keeps the way that always takes the first child. -/
theorem descend_mapAll (hf : KeepsLabels f) (e : Element) : (mapAll f e).descend = e.descend := by
  induction e using induction with
  | h e ih =>
      rw [descend_eq, descend_eq e, children_mapAll hf.shallow]
      match hchildren : e.children with
      | [] => rfl
      | [c] =>
          have hc := ih c (hchildren ▸ List.mem_singleton_self c)
          simp only [List.map_cons, List.map_nil, hf.name_mapAll, hc]
      | c :: c' :: cs => rfl

/-- The label is found where it was. -/
theorem label?_mapAll (hf : KeepsLabels f) (e : Element) : (mapAll f e).label? = e.label? := by
  have hfound := find?_descendants_mapAll hf.shallow
    (P := fun x => x.hasClass "nodeLabel" || x.name == "foreignObject") (fun x => by
      simp only [hf.hasClass_mapAll, hf.name_mapAll]) e
  have hname : ∀ (tag : String) (x : Element), (mapAll f x).find? (fun d => d.name == tag) =
      x.find? (fun d => d.name == tag) := fun tag x =>
    find?_mapAll hf.shallow (fun y => by rw [hf.name_mapAll]) x
  rw [label?, label?, hfound, hname]
  cases e.descendants.find? fun place =>
      place.2.hasClass "nodeLabel" || place.2.name == "foreignObject" with
  | none => rfl
  | some place =>
      simp only [Option.map_some, hname, hf.descend_mapAll]

end KeepsLabels

end Order

end Element

end Flowchart
