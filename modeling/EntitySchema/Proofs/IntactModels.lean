import EntitySchema.Proofs.ScreenRuns
import Mathlib

/-! Models after a screen document was read, or could not be read. Reading touches the titles
of the model and the screens inside its root, nothing else. The screens that were there stay in
front, and each one behind them is read to the end, also when reading fails in the middle of a
later one. A document that may not be read at all changes nothing. -/

namespace EntitySchema.Screens

open Xml (Element)

variable {m : Model} {library : Library} {within : List String} {parent file : String}
  {x root : Element} {xs : List Element} {g g' : Gathered} {o : Except Failure Unit}
  {events : List Event}

/-! ### Complete screens -/

/-- The screen is read to the end: reading the element that declares it succeeds, with all that
is inside, and gathers just this screen. -/
def Complete (m : Model) (library : Library) (x : Element) (s : Screen) : Prop :=
  x.name ∈ screenElements ∧ ∃ within parent noted g events,
    Reads m library within parent [x] ⟨[], noted⟩ (.ok ()) g events ∧ g.screens = [s]

/-- The element stands directly inside the elements of a document, or inside a document that is
included there, with includes `depth` deep. -/
def Stands (library : Library) (depth : Nat) (xs : List Element) (x : Element) : Prop :=
  x ∈ xs ∨ ∃ r, Includes library depth xs r ∧ x ∈ r.children

theorem Stands.cons {y : Element} {depth : Nat} (h : Stands library depth xs x) :
    Stands library depth (y :: xs) x :=
  h.imp (List.mem_cons_of_mem y) fun ⟨r, hr, hx⟩ => ⟨r, hr.mono (List.subset_cons_self y xs), hx⟩

theorem Stands.included {y r : Element} {depth : Nat} (hnames : Names library y r)
    (h : Stands library depth r.children x) : Stands library (depth + 1) (y :: xs) x := by
  rcases h with hx | ⟨r', hr', hx⟩
  · exact .inr ⟨r, .here List.mem_cons_self hnames, hx⟩
  · exact .inr ⟨r', .within List.mem_cons_self hnames hr', hx⟩

theorem names_of_open (hname : x.name = "include") (hfile : x.filled? "file" = some file)
    (hopen : openDocument library file = .ok root) : Names library x root := by
  obtain ⟨text, htext, hroot⟩ := Except.bind_ok hopen
  exact ⟨hname, file, text, hfile, htext, Except.mapError_ok hroot⟩

/-- Screens are added behind those that are there, each one complete and declared by an element
that stands there. -/
def Adds (m : Model) (library : Library) (depth : Nat) (xs : List Element) (g g' : Gathered) :
    Prop :=
  ∃ added, g'.screens = g.screens ++ added ∧
    ∀ s ∈ added, ∃ x, Complete m library x s ∧ Stands library depth xs x

namespace Adds

variable {depth depth' : Nat} {ys : List Element} {g'' : Gathered}

theorem none (h : g'.screens = g.screens) : Adds m library depth xs g g' :=
  ⟨[], by rw [h, List.append_nil], by simp⟩

theorem one {s : Screen} (h : g'.screens = g.screens ++ [s]) (hs : Complete m library x s)
    (hx : Stands library depth xs x) : Adds m library depth xs g g' :=
  ⟨[s], h, fun _ hmem => List.mem_singleton.mp hmem ▸ ⟨x, hs, hx⟩⟩

theorem mono (h : Adds m library depth xs g g')
    (hstands : ∀ x, Stands library depth xs x → Stands library depth' ys x) :
    Adds m library depth' ys g g' := by
  obtain ⟨added, hadded, hall⟩ := h
  refine ⟨added, hadded, fun s hs => ?_⟩
  obtain ⟨x, hx, hmem⟩ := hall s hs
  exact ⟨x, hx, hstands x hmem⟩

theorem append (h : Adds m library depth xs g g') (h' : Adds m library depth xs g' g'') :
    Adds m library depth xs g g'' := by
  obtain ⟨added, hadded, hall⟩ := h
  obtain ⟨added', hadded', hall'⟩ := h'
  refine ⟨added ++ added', by rw [hadded', hadded, List.append_assoc], fun s hs => ?_⟩
  exact (List.mem_append.mp hs).elim (hall s) (hall' s)

/-- What an included document adds, the include adds. -/
theorem included (hname : x.name = "include") (hfile : x.filled? "file" = some file)
    (hdepth : within.length < maxNesting) (hopen : openDocument library file = .ok root)
    (h : Adds m library (maxNesting - (file :: within).length) root.children g g') :
    Adds m library (maxNesting - within.length) (x :: xs) g g' := by
  have hleft : maxNesting - within.length = maxNesting - (file :: within).length + 1 := by
    rw [List.length_cons]
    omega
  rw [hleft]
  exact h.mono fun _ hx => hx.included (names_of_open hname hfile hopen)

end Adds

/-- Whether reading elements succeeds or fails, it adds complete screens. -/
theorem Reads.adds (h : Reads m library within parent xs g o g' events) :
    Adds m library (maxNesting - within.length) xs g g' := by
  induction h with
  | done => exact .none rfl
  | skipped hname rest ih => exact ih.mono fun _ => .cons
  | undeclared | unfilled | unnamed | refused | unopened => exact .none rfl
  | @declared within parent x xs g _ _ _ _ _ _ _ hname node inside _ _ ihrest =>
    have hcomplete : Complete m library x _ :=
      ⟨hname, within, parent, g.warnings, _, _, .declared hname node inside .done, rfl⟩
    exact (Adds.one rfl hcomplete (.inl List.mem_cons_self)).append (ihrest.mono fun _ => .cons)
  | unread hname hfile hdepth hopen _ ih => exact ih.included hname hfile hdepth hopen
  | included hname hfile hdepth hopen _ _ ihinner ihrest =>
    exact (ihinner.included hname hfile hdepth hopen).append (ihrest.mono fun _ => .cons)

/-! ### Documents -/

section Documents

variable {dialect : Dialect} {text : String} {d d' : Draft}

/-- An element that may not stand at the root is found. -/
theorem checkRoot_fails_of_mem (hx : x ∈ root.children) (hname : x.name ∉ screenRootElements) :
    ∃ y ∈ root.children, y.name ∉ screenRootElements ∧
      checkRoot root = .error (.unknownRootElement y.name) := by
  unfold checkRoot
  split
  · next y hy =>
    exact ⟨y, List.mem_of_find?_eq_some hy, by simpa using List.find?_some hy, rfl⟩
  · next hnone => exact absurd (by simpa using List.find?_eq_none.mp hnone x hx) hname

/-- Reading a screen document leaves alone what is not the titles of the model or its screens,
and keeps the screens that are there in front of those that it adds. Each of these is complete,
and declared by an element at the root of the document or of one that is included there; it
does not matter whether reading succeeds, or fails further on. If the text is not well-formed,
has an element at its root that may not stand there, or gives the model an illegal name, then
reading fails for this reason and nothing changes at all. -/
theorem read_intact (dialect : Dialect) (library : Library) (text : String) (d : Draft) :
    let outcome := ((read dialect library text).run d).1
    let after := ((read dialect library text).run d).2
    (after.model.entities = d.model.entities ∧ after.model.modules = d.model.modules ∧
      after.model.views = d.model.views ∧ after.model.methods = d.model.methods ∧
      after.model.description = d.model.description) ∧
    (∃ added, after.model.screens.children = d.model.screens.children ++ added ∧
      ∀ s ∈ added, ∃ root x, Xml.parse text = .ok root ∧
        Complete (entitle root d.model) library x s ∧ Stands library maxNesting root.children x) ∧
    (∀ fault, Xml.parse text = .error fault → outcome = .error (.document fault) ∧ after = d) ∧
    ∀ root, Xml.parse text = .ok root →
      (∀ x ∈ root.children, x.name ∉ screenRootElements →
        (∃ y ∈ root.children, y.name ∉ screenRootElements ∧
          outcome = .error (.screen (.unknownRootElement y.name))) ∧ after = d) ∧
      ∀ name fault, (∀ x ∈ root.children, x.name ∈ screenRootElements) →
        root.trimmed? "name" = some name → Identifier.check "model" name dialect = .error fault →
          outcome = .error (.identifier fault) ∧ after = d := by
  obtain ⟨o, d', events, hreads⟩ := exists_readsDocument dialect library text d
  dsimp only
  refine ⟨?_, ?_, fun fault hfault => ?_, fun root hroot => ⟨fun x hx hname => ?_, ?_⟩⟩
  · rw [hreads.run]
    cases hreads <;> exact ⟨rfl, rfl, rfl, rfl, rfl⟩
  · rw [hreads.run]
    cases hreads with
    | malformed | disallowed | illegal => exact ⟨[], by simp, by simp⟩
    | @admitted root g _ _ hroot _ _ reads =>
      obtain ⟨added, hadded, hall⟩ := reads.adds
      refine ⟨added, hadded, fun s hs => ?_⟩
      obtain ⟨x, hx, hstands⟩ := hall s hs
      exact ⟨root, x, hroot, hx, hstands⟩
  · rw [(ReadsDocument.malformed hfault).run]
    exact ⟨rfl, rfl⟩
  · obtain ⟨y, hy, hyname, hchecked⟩ := checkRoot_fails_of_mem hx hname
    rw [(ReadsDocument.disallowed hroot hchecked).run]
    exact ⟨⟨y, hy, hyname, rfl⟩, rfl⟩
  · intro name fault hallowed hname hfault
    have hillegal : checkName root dialect = .error fault := by
      unfold checkName
      rw [hname]
      exact hfault
    rw [(ReadsDocument.illegal hroot (checkRoot_ok_iff.mpr hallowed) hillegal).run]
    exact ⟨rfl, rfl⟩

/-- A model with boxes and a screen. -/
def boxShop : Draft :=
  { boxDraft with model := { boxDraft.model with screens := { boxDraft.model.screens with
      children := [⟨"Old", "Old", "lab", none, none, .menu none, []⟩] } } }

/-- A document with a menu, and with an include behind it. -/
def shopMenu : String :=
  "<lab name='shop'><menu name='Main'><plugin name='Chart' type='chart'/></menu>" ++
  "<include file='rest'/></lab>"

/-- The included document has a plugin, and then a form for no entity of the model. -/
def shopLibrary : Library := fun _ =>
  .ok "<lab><plugin name='Help' type='page'/><form name='Toys' entity='Toy'/></lab>"

/-- Reading that fails in the middle, and three documents that may not be read. -/
theorem boxShop_intact :
    (((read .generic shopLibrary shopMenu).run boxShop).1.toBool = false ∧
      ((read .generic shopLibrary shopMenu).run boxShop).2.model.screens.children.map (·.name) =
        ["Old", "Main", "Help"] ∧
      ∃ added, ((read .generic shopLibrary shopMenu).run boxShop).2.model.screens.children =
          boxShop.model.screens.children ++ added ∧
        ∀ s ∈ added, ∃ root x, Xml.parse shopMenu = .ok root ∧
          Complete (entitle root boxShop.model) shopLibrary x s ∧
          Stands shopLibrary maxNesting root.children x) ∧
    ((read .generic shopLibrary "<lab>").run boxShop).2 = boxShop ∧
    ((read .generic shopLibrary "<lab><tree/></lab>").run boxShop).2 = boxShop ∧
    ((read .generic shopLibrary "<lab name='my shop'/>").run boxShop).2 = boxShop := by
  have hrun : ((read .generic shopLibrary shopMenu).run boxShop).1.toBool = false ∧
      ((read .generic shopLibrary shopMenu).run boxShop).2.model.screens.children.map (·.name) =
        ["Old", "Main", "Help"] := by
    decide +kernel
  have htree : Xml.parse "<lab><tree/></lab>" = .ok ⟨"lab", [], [⟨"tree", [], [], ""⟩], ""⟩ := by
    cbv
  have hname : Xml.parse "<lab name='my shop'/>" = .ok ⟨"lab", [("name", "my shop")], [], ""⟩ := by
    cbv
  have hillegal : Identifier.check "model" "my shop" .generic =
      .error (.spaced "model" "my shop") := by
    decide +kernel
  refine ⟨⟨hrun.1, hrun.2, (read_intact .generic shopLibrary shopMenu boxShop).2.1⟩, ?_, ?_, ?_⟩
  · have hopen : (Xml.parse "<lab>").toBool = false := by decide +kernel
    cases hroot : Xml.parse "<lab>" with
    | error fault =>
      exact ((read_intact .generic shopLibrary "<lab>" boxShop).2.2.1 fault hroot).2
    | ok root =>
      rw [hroot] at hopen
      cases hopen
  · exact (((read_intact .generic shopLibrary _ boxShop).2.2.2 _ htree).1 ⟨"tree", [], [], ""⟩
      (by simp) (by simp [screenRootElements])).2
  · exact (((read_intact .generic shopLibrary _ boxShop).2.2.2 _ hname).2 "my shop" _
      (by simp) (by decide +kernel) hillegal).2

end Documents

end EntitySchema.Screens
