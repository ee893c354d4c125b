import EntitySchema.Proofs.ScreenReading

/-! Screens at the root. An include stands for what is inside the document that it names, so
what stands at the root is found by following the includes there. The elements directly inside
a document are checked, those of included documents are not: a tree that an included document
has at its root becomes a screen at the root of the model. -/

namespace EntitySchema

open Xml (Element)

/-! ### Elements and the screens that they declare -/

/-- The element that declares a screen of this kind; no element declares the root. -/
def ScreenKind.element : ScreenKind → String
  | .root => ""
  | .menu _ => "menu"
  | .form _ => "form"
  | .tree _ => "tree"
  | .plugin _ => "plugin"

namespace Screens

variable {m : Model} {library : Library} {depth : Nat} {x : Element} {xs ys zs : List Element}
  {parent : String}

/-- Elements that declare screens. -/
def screenElements : List String := ["menu", "form", "tree", "plugin"]

/-- Of the elements that declare screens all but trees may stand at the root. -/
theorem mem_screenElements {name : String} (h : name ∈ screenElements) :
    name = "tree" ∧ name ∉ screenRootElements ∨
      name ∈ ["menu", "form", "plugin"] ∧ name ∈ screenRootElements := by
  simp only [screenElements, List.mem_cons, List.not_mem_nil, or_false] at h
  rcases h with rfl | rfl | rfl | rfl <;> simp [screenRootElements]

/-- The element is an include, and this is the root of the document that it names. -/
def Names (library : Library) (x root : Element) : Prop :=
  x.name = "include" ∧ ∃ file text, x.filled? "file" = some file ∧ library file = .ok text ∧
    Xml.parse text = .ok root

theorem Names.unique {r r' : Element} (h : Names library x r) (h' : Names library x r') :
    r = r' := by
  obtain ⟨-, file, text, hfile, htext, hroot⟩ := h
  obtain ⟨-, file', text', hfile', htext', hroot'⟩ := h'
  obtain rfl : file = file' := Option.some.inj (hfile.symm.trans hfile')
  obtain rfl : text = text' := Except.ok.inj (htext.symm.trans htext')
  exact Except.ok.inj (hroot.symm.trans hroot')

/-- The document with this root is included by one of the elements, or by an element directly
inside a document that is; includes are at most `depth` deep. -/
inductive Includes (library : Library) : Nat → List Element → Element → Prop
  | here {depth : Nat} {x r : Element} {xs : List Element} (hx : x ∈ xs)
      (hnames : Names library x r) : Includes library (depth + 1) xs r
  | within {depth : Nat} {x r r' : Element} {xs : List Element} (hx : x ∈ xs)
      (hnames : Names library x r) (inner : Includes library depth r.children r') :
      Includes library (depth + 1) xs r'

theorem Includes.mono {r : Element} (h : Includes library depth xs r) (hxs : xs ⊆ ys) :
    Includes library depth ys r := by
  cases h with
  | here hx hnames => exact .here (hxs hx) hnames
  | within hx hnames inner => exact .within (hxs hx) hnames inner

/-- What stands in the place of elements when each include gives way to the elements inside
the document that it names, with includes `depth` deep. -/
inductive Splices (library : Library) : Nat → List Element → List Element → Prop
  | nil {depth : Nat} : Splices library depth [] []
  | own {depth : Nat} {x : Element} {xs ys : List Element} (hname : x.name ≠ "include")
      (rest : Splices library depth xs ys) : Splices library depth (x :: xs) (x :: ys)
  | included {depth : Nat} {x r : Element} {xs ys zs : List Element}
      (hnames : Names library x r) (inner : Splices library depth r.children zs)
      (rest : Splices library (depth + 1) xs ys) :
      Splices library (depth + 1) (x :: xs) (zs ++ ys)

namespace Splices

/-- What stands in the place of the first element stands before the rest. -/
theorem cons (h : Splices library depth [x] zs) (hrest : Splices library depth xs ys) :
    Splices library depth (x :: xs) (zs ++ ys) := by
  cases h with
  | own hname rest =>
    cases rest
    exact .own hname hrest
  | included hnames inner rest =>
    cases rest
    rw [List.append_nil]
    exact .included hnames inner hrest

/-- Everything that stands there is an element of its own, or one inside an included document. -/
theorem origin (h : Splices library depth xs ys) : ∀ y ∈ ys,
    y ∈ xs ∨ ∃ r, Includes library depth xs r ∧ y ∈ r.children := by
  induction h with
  | nil => simp
  | @own _ x xs ys _ _ ih =>
    intro y hy
    rcases List.mem_cons.mp hy with rfl | hy
    · exact .inl List.mem_cons_self
    · exact (ih y hy).imp (List.mem_cons_of_mem x) fun ⟨r, hr, hy⟩ =>
        ⟨r, hr.mono (List.subset_cons_self x xs), hy⟩
  | @included _ x r xs ys zs hnames _ _ ihinner ihrest =>
    intro y hy
    rcases List.mem_append.mp hy with hy | hy
    · rcases ihinner y hy with hy | ⟨r', hr', hy⟩
      · exact .inr ⟨r, .here List.mem_cons_self hnames, hy⟩
      · exact .inr ⟨r', .within List.mem_cons_self hnames hr', hy⟩
    · exact (ihrest y hy).imp (List.mem_cons_of_mem x) fun ⟨r', hr', hy⟩ =>
        ⟨r', hr'.mono (List.subset_cons_self x xs), hy⟩

/-- An element that is no include stands where it was. -/
theorem mem_own (h : Splices library depth xs ys) (hname : x.name ≠ "include") (hx : x ∈ xs) :
    x ∈ ys := by
  induction h with
  | nil => cases hx
  | own _ _ ih => exact List.mem_cons.mpr ((List.mem_cons.mp hx).imp_right ih)
  | included hnames _ _ _ ihrest =>
    rcases List.mem_cons.mp hx with rfl | hx
    · exact absurd hnames.1 hname
    · exact List.mem_append_right _ (ihrest hx)

/-- What is inside the document that an include names stands in its place. -/
theorem names (h : Splices library (depth + 1) xs ys) {r : Element} (hx : x ∈ xs)
    (hnames : Names library x r) : ∃ zs, Splices library depth r.children zs ∧ zs ⊆ ys := by
  generalize hd : depth + 1 = d at h
  induction h with
  | nil => cases hx
  | @own _ y ys zs hname _ ih =>
    rcases List.mem_cons.mp hx with rfl | hx
    · exact absurd hnames.1 hname
    · obtain ⟨inner, hinner, hsubset⟩ := ih hx hd
      exact ⟨inner, hinner, List.subset_cons_of_subset y hsubset⟩
  | @included d y r' xs ys zs hnames' inner _ _ ihrest =>
    obtain rfl : depth = d := by omega
    rcases List.mem_cons.mp hx with rfl | hx
    · obtain rfl := hnames.unique hnames'
      exact ⟨zs, inner, List.subset_append_left _ _⟩
    · obtain ⟨inner, hinner, hsubset⟩ := ihrest hx hd
      exact ⟨inner, hinner, List.subset_append_of_subset_right zs hsubset⟩

/-- An element of an included document stands there, unless it is an include. -/
theorem mem_included {r : Element} (h : Splices library depth xs ys)
    (hr : Includes library depth xs r) (hname : x.name ≠ "include") (hx : x ∈ r.children) :
    x ∈ ys := by
  induction hr generalizing ys with
  | here hy hnames =>
    obtain ⟨zs, hinner, hsubset⟩ := h.names hy hnames
    exact hsubset (hinner.mem_own hname hx)
  | within hy hnames _ ih =>
    obtain ⟨zs, hinner, hsubset⟩ := h.names hy hnames
    exact hsubset (ih hinner hx)

end Splices

/-! ### What is gathered -/

/-- The screens that elements declare are added, one for each and in their order; elements
that declare none leave warnings. -/
structure Gathers (parent : String) (standing : List Element) (g g' : Gathered) : Prop where
  screens : ∃ added, g'.screens = g.screens ++ added ∧
    List.Forall₂ (fun x s => s.kind.element = x.name)
      (standing.filter (screenElements.contains ·.name)) added
  warnings : g.warnings <+: g'.warnings
  skipped : ∀ x ∈ standing, x.name ∈ screenElements ∨ x.name = "description" ∨
    .skipped x.name s!" under '{parent}'" ∈ g'.warnings

namespace Gathers

variable {g g' g'' : Gathered}

theorem nil (g : Gathered) : Gathers parent [] g g :=
  ⟨⟨[], by simp, .nil⟩, List.prefix_refl _, by simp⟩

theorem append (h : Gathers parent xs g g') (h' : Gathers parent ys g' g'') :
    Gathers parent (xs ++ ys) g g'' := by
  obtain ⟨added, hadded, hkinds⟩ := h.screens
  obtain ⟨added', hadded', hkinds'⟩ := h'.screens
  refine ⟨⟨added ++ added', by rw [hadded', hadded, List.append_assoc], ?_⟩,
    h.warnings.trans h'.warnings, fun x hx => ?_⟩
  · rw [List.filter_append]
    exact List.rel_append hkinds hkinds'
  · rcases List.mem_append.mp hx with hx | hx
    · exact (h.skipped x hx).imp_right (Or.imp_right fun hw => h'.warnings.subset hw)
    · exact h'.skipped x hx

/-- An element that only leaves a warning. -/
theorem noted {w : Warning} (hscreen : x.name ∉ screenElements)
    (hw : x.name = "description" ∨ w = .skipped x.name s!" under '{parent}'") :
    Gathers parent [x] g { g with warnings := g.warnings ++ [w] } := by
  refine ⟨⟨[], by simp, ?_⟩, List.prefix_append _ _, fun y hy => ?_⟩
  · rw [List.filter_cons_of_neg (by simpa using hscreen)]
    exact .nil
  ·

    obtain rfl := List.mem_singleton.mp hy
    exact .inr (hw.imp_right fun hw => by simp [hw])

/-- An element that declares a screen. -/
theorem declared {s : Screen} {warnings : List Warning} (hname : x.name ∈ screenElements)
    (hkind : s.kind.element = x.name) (hwarnings : g.warnings <+: warnings) :
    Gathers parent [x] g { screens := g.screens ++ [s], warnings } := by
  refine ⟨⟨[s], rfl, ?_⟩, hwarnings, fun y hy => ?_⟩
  · rw [List.filter_cons_of_pos (by simpa using hname)]
    exact .cons hkind .nil
  · obtain rfl := List.mem_singleton.mp hy
    exact .inl hname

end Gathers

/-! ### Single screens -/

end Screens

/-- The terms of work that leaves warnings behind the ones that are there. -/
def Terms.notes : Terms (List Warning) where
  changes := (· <+: ·)
  failures _ := True
  refl := List.prefix_refl
  trans := List.IsPrefix.trans

namespace Screens

variable {m : Model} {library : Library} {depth : Nat} {x : Element} {xs : List Element}
  {form name parent : String} {noted noted' : List Warning} {s : Screen}

section Nodes

variable {t : Terms (List Warning)} (hnote : ∀ noted w, t.changes noted (noted ++ [w]))
  (hfail : ∀ fault, t.failures (.screen fault))

include hfail

theorem lift_node {α : Type} {y : Except ScreenFault α} : Heeds t (liftM y : Noting α) noted :=
  .lift (.mapError fun _ _ => hfail _)

include hnote

theorem readFilter_node : Heeds t (readFilter form x) noted := by
  unfold readFilter
  split
  · exact .pure
  · split
    · dsimp only
      split
      · exact .bind (.modify (hnote _ _)) fun _ _ _ => .pure
      · exact .pure
    · exact .throw (hfail _)

theorem readForm_node : Heeds t (readForm m form x) noted :=
  .bind (lift_node hfail) fun _ _ _ => .bind (lift_node hfail) fun _ _ _ =>
    .bind (lift_node hfail) fun _ _ _ => .bind (lift_node hfail) fun _ _ _ =>
    (readFilter_node hnote hfail).bind fun _ _ _ =>
    .bind (lift_node hfail) fun _ _ _ => .bind (lift_node hfail) fun _ _ _ => .pure

theorem readKind_node : Heeds t (readKind m name x) noted := by
  unfold readKind
  split
  · exact .pure
  · exact (readForm_node hnote hfail).bind fun _ _ _ => .pure
  · exact .bind (lift_node hfail) fun _ _ _ => .pure
  · exact .bind (lift_node hfail) fun _ _ _ => .pure

/-- Reading a single screen leaves warnings behind, and fails for a fault in it only. -/
theorem readScreen_node : Heeds t (readScreen m parent x) noted :=
  .bind (lift_node hfail) fun _ _ _ => .guard (hfail _) <|
    (readKind_node hnote hfail).bind fun _ _ _ => .pure

end Nodes

theorem readScreen_notes : Heeds .notes (readScreen m parent x) noted :=
  readScreen_node (fun _ _ => List.prefix_append _ _) fun _ => trivial

/-- The kind of a screen is that of its element. -/
theorem readKind_element {kind : ScreenKind} {scope : String} (hx : x.name ∈ screenElements)
    (h : Ends (readKind m name x) noted (kind, scope) noted') : kind.element = x.name := by
  unfold readKind at h
  split at h
  · next hname =>
    obtain ⟨heq, -⟩ := h.pure
    cases heq
    exact hname.symm
  · next hname =>
    obtain ⟨_, _, -, h⟩ := h.bind
    obtain ⟨heq, -⟩ := h.pure
    cases heq
    exact hname.symm
  · next hname =>
    obtain ⟨_, _, h⟩ := h.lift_bind
    obtain ⟨heq, -⟩ := h.pure
    cases heq
    exact hname.symm
  · next hmenu hform htree =>
    obtain ⟨_, -, h⟩ := h.lift_bind
    obtain ⟨heq, -⟩ := h.pure
    cases heq
    simp only [screenElements, List.mem_cons, List.not_mem_nil, or_false] at hx
    exact (((hx.resolve_left hmenu).resolve_left hform).resolve_left htree).symm

theorem readScreen_element (hx : x.name ∈ screenElements)
    (h : Ends (readScreen m parent x) noted s noted') : s.kind.element = x.name := by
  obtain ⟨name, _, h⟩ := h.lift_bind
  obtain ⟨-, h⟩ := h.guard
  obtain ⟨⟨kind, scope⟩, n₁, hkind, h⟩ := h.bind
  obtain ⟨rfl, -⟩ := h.pure
  exact readKind_element hx hkind

/-! ### Runs -/

section Runs

variable {inclusion : Inclusion} {g g' : Gathered}

/-- An element that only leaves a warning adds no screen. -/
theorem note_gathers {w : Warning} (hscreen : x.name ∉ screenElements)
    (hw : x.name = "description" ∨ w = .skipped x.name s!" under '{parent}'")
    (h : Ends (Gathering.noting (note w)) g () g') : Gathers parent [x] g g' := by
  obtain ⟨hscreens, hnoted⟩ := noting_ends h
  obtain ⟨screens, warnings⟩ := g'
  obtain rfl := hscreens
  obtain rfl := hnoted.modify
  exact .noted hscreen hw

/-- A screen is added with what its element declares inside, which may be anything. -/
theorem addScreen_gathers {parent : String} {x : Element} {work : String → Gathering Unit}
    (hx : x.name ∈ screenElements)
    (hwork : ∀ name g g', Ends (work name) g () g' → ∃ standing, Gathers name standing g g')
    (h : Ends (Gathering.noting (readScreen m parent x) >>= fun screen =>
      Gathering.inside (work screen.name) >>= fun children =>
        Gathering.add { screen with children }) g () g') :
    ∃ standing, Splices library depth [x] standing ∧ Gathers parent standing g g' := by
  obtain ⟨screen, g₁, hscreen, h⟩ := h.bind
  obtain ⟨children, g₂, hchildren, h⟩ := h.bind
  obtain ⟨hscreens, hscreen⟩ := noting_ends hscreen
  obtain ⟨inner, rfl, rfl, hinner⟩ := inside_ends hchildren
  obtain ⟨_, hinner⟩ := hwork _ _ _ hinner
  obtain rfl := h.modify
  have hname : x.name ≠ "include" := by
    intro h
    rw [h] at hx
    simp [screenElements] at hx
  refine ⟨[x], .own hname .nil, ?_⟩
  have hwarnings : g.warnings <+: inner.warnings :=
    (readScreen_notes.of_ends hscreen).trans hinner.warnings
  have hkind : screen.kind.element = x.name := readScreen_element hx hscreen
  exact hscreens ▸ .declared hx hkind hwarnings

/-- What an inclusion does at the depth `depth`. -/
def Inclusion.Splices (inclusion : Inclusion) (library : Library) (depth : Nat) : Prop :=
  ∀ parent x g g', x.name = "include" → Ends (inclusion parent x) g () g' →
    ∃ standing, Screens.Splices library depth [x] standing ∧ Gathers parent standing g g'

mutual

theorem readElement_gathers (hinclusion : inclusion.Splices library depth) :
    ∀ (x : Element) (parent : String) (g g' : Gathered),
      Ends (readElement m inclusion parent x) g () g' →
      ∃ standing, Splices library depth [x] standing ∧ Gathers parent standing g g'
  | ⟨name, attributes, children, text⟩, parent, g, g', h => by
    unfold readElement at h
    dsimp only at h
    split at h
    · exact hinclusion _ _ _ _ rfl h
    · exact ⟨_, .own (by simp) .nil, note_gathers (by simp [screenElements]) (.inl rfl) h⟩
    iterate 4
      · exact addScreen_gathers (by simp [screenElements])
          (fun name g g' h => (readElements_gathers hinclusion children name g g' h).imp
            fun _ => And.right) h
    · next hinclude _ hmenu hform htree hplugin =>
      refine ⟨_, .own hinclude .nil, note_gathers ?_ (.inr rfl) h⟩
      simp only [screenElements, List.mem_cons, List.not_mem_nil, or_false, not_or]
      exact ⟨hmenu, hform, htree, hplugin⟩

theorem readElements_gathers (hinclusion : inclusion.Splices library depth) :
    ∀ (xs : List Element) (parent : String) (g g' : Gathered),
      Ends (readElements m inclusion parent xs) g () g' →
      ∃ standing, Splices library depth xs standing ∧ Gathers parent standing g g'
  | [], parent, g, g', h => by
    unfold readElements at h
    obtain ⟨-, rfl⟩ := h.pure
    exact ⟨[], .nil, .nil g'⟩
  | x :: rest, parent, g, g', h => by
    unfold readElements at h
    obtain ⟨_, g₁, hx, hrest⟩ := h.bind
    obtain ⟨zs, hzs, hgathers⟩ := readElement_gathers hinclusion x parent g g₁ hx
    obtain ⟨ys, hys, hgathers'⟩ := readElements_gathers hinclusion rest parent g₁ g' hrest
    exact ⟨zs ++ ys, hzs.cons hys, hgathers.append hgathers'⟩

end

/-- Includes stand for what is inside the documents that they name, by induction on how deep
they may nest. -/
theorem includeScreens_splices (m : Model) (library : Library) : ∀ depth : Nat,
    Inclusion.Splices (includeScreens m library depth) library depth
  | 0, parent, x, g, g', _, h => by
    unfold includeScreens at h
    obtain ⟨_, _, h⟩ := h.lift_bind
    exact h.throw.elim
  | depth + 1, parent, x, g, g', hname, h => by
    unfold includeScreens at h
    obtain ⟨file, hfile, h⟩ := h.lift_bind
    obtain ⟨text, htext, h⟩ := h.lift_bind
    obtain ⟨root, hroot, h⟩ := h.lift_bind
    obtain ⟨zs, hzs, hgathers⟩ :=
      readElements_gathers (includeScreens_splices m library depth) root.children parent g g' h
    refine ⟨zs ++ [], .included ⟨hname, file, text, ?_, htext, Except.mapError_ok hroot⟩ hzs .nil,
      ?_⟩
    · have hfile := Except.mapError_ok (g := Failure.screen) hfile
      unfold includedFile at hfile
      split at hfile
      · next h => cases hfile; exact h
      · cases hfile
    · rwa [List.append_nil]

end Runs

/-! ### Documents -/

section Documents

variable {dialect : Dialect} {d d' : Draft} {text : String}

theorem checkRoot_ok_iff {root : Element} : checkRoot root = .ok () ↔
    ∀ x ∈ root.children, x.name ∈ screenRootElements := by
  unfold checkRoot
  split
  · next x hx =>
    have hout : x.name ∉ screenRootElements := by simpa using List.find?_some hx
    exact ⟨nofun, fun h => absurd (h x (List.mem_of_find?_eq_some hx)) hout⟩
  · next hnone => exact ⟨fun _ => by simpa using hnone, fun _ => rfl⟩

theorem gather_run {work : Model → Gathering Unit} {u : Unit} (h : Ends (gather work) d u d') :
    ∃ gathered : Gathered,
      Ends (work d.model) ⟨d.model.screens.children, d.warnings⟩ () gathered ∧
      d'.model.name = d.model.name ∧ d'.model.screens.children = gathered.screens ∧
      d'.warnings = gathered.warnings := by
  unfold Ends gather at h
  rcases hwork : (work d.model).run ⟨d.model.screens.children, d.warnings⟩ with
    ⟨outcome, gathered⟩
  simp only [ExceptT.run_mk] at h
  rw [hwork] at h
  cases h
  exact ⟨gathered, hwork, rfl, rfl, rfl⟩

/-- Reading a document gathers what stands at its root; the elements directly inside it are
such that may stand there. -/
theorem read_gathers {u : Unit} (h : Ends (read dialect library text) d u d') :
    ∃ root standing g g', Xml.parse text = .ok root ∧
      (∀ x ∈ root.children, x.name ∈ screenRootElements) ∧
      Splices library maxNesting root.children standing ∧
      Gathers d'.model.name standing g g' ∧ g.screens = d.model.screens.children ∧
      g'.screens = d'.model.screens.children ∧ g'.warnings = d'.warnings := by
  obtain ⟨root, hroot, h⟩ := h.lift_bind
  obtain ⟨_, hchecked, h⟩ := h.lift_bind
  obtain ⟨_, _, h⟩ := h.lift_bind
  obtain ⟨_, d₁, hentitle, h⟩ := h.bind
  obtain ⟨g', hgather, hname, hscreens, hwarnings⟩ := gather_run h
  obtain ⟨standing, hsplices, hgathers⟩ := readElements_gathers
    (includeScreens_splices d₁.model library maxNesting) root.children _ _ _ hgather
  refine ⟨root, standing, _, g', Except.mapError_ok hroot,
    checkRoot_ok_iff.mp (Except.mapError_ok (g := Failure.screen) hchecked), hsplices,
    hname ▸ hgathers, ?_, hscreens.symm, hwarnings.symm⟩
  rw [Reading.change_ends hentitle]
  rfl

/-- A document is read as if its includes gave way to what is inside the documents that they
name: an element that then stands at the root and declares a screen adds one of its kind,
behind the screens that were there and in the order of the elements. The elements directly
inside the document are such that may stand there; another one can only come from an included
document, and is a tree or is skipped with a warning. So menus, forms and plugins are all that
is added, and no other element is taken at the root, exactly when every document that is
included at the root, directly or through others, passes the check of root elements, which is
made for the first document only. -/
theorem read_root_screens (dialect : Dialect) (library : Library) (text : String) (d after : Draft)
    (h : Ends (read dialect library text) d () after) :
    ∃ root standing added, Xml.parse text = .ok root ∧
      Splices library maxNesting root.children standing ∧
      after.model.screens.children = d.model.screens.children ++ added ∧
      List.Forall₂ (fun x s => s.kind.element = x.name)
        (standing.filter (screenElements.contains ·.name)) added ∧
      (∀ x ∈ root.children, x.name ∈ screenRootElements) ∧
      (∀ x ∈ standing, x.name ∉ screenRootElements → x ∉ root.children ∧
        (x.name = "tree" ∨ .skipped x.name s!" under '{after.model.name}'" ∈ after.warnings)) ∧
      (((∀ s ∈ added, s.kind.element ∈ ["menu", "form", "plugin"]) ∧
          ∀ x ∈ standing, x.name ∈ screenRootElements) ↔
        ∀ r, Includes library maxNesting root.children r → checkRoot r = .ok ()) := by
  obtain ⟨root, standing, g, g', hroot, hallowed, hsplices, hgathers, hbefore, hafter, hwarnings⟩ :=
    read_gathers h
  obtain ⟨added, hadded, hkinds⟩ := hgathers.screens
  refine ⟨root, standing, added, hroot, hsplices, ?_, hkinds, hallowed, fun x hx hout => ?_, ?_, ?_⟩
  · rw [← hafter, hadded, hbefore]
  · refine ⟨fun hown => hout (hallowed x hown), ?_⟩
    rcases hgathers.skipped x hx with hscreen | hdescription | hskipped
    · exact .inl ((mem_screenElements hscreen).resolve_right fun h => hout h.2).1
    · exact absurd (by simp [hdescription, screenRootElements]) hout
    · exact .inr (hwarnings ▸ hskipped)
  · rintro ⟨-, hstanding⟩ r hr
    refine checkRoot_ok_iff.mpr fun x hx => ?_
    by_cases hinclude : x.name = "include"
    · simp [hinclude, screenRootElements]
    · exact hstanding x (hsplices.mem_included hr hinclude hx)
  · intro hincluded
    have hstanding : ∀ x ∈ standing, x.name ∈ screenRootElements := by
      intro x hx
      rcases hsplices.origin x hx with hown | ⟨r, hr, hx⟩
      · exact hallowed x hown
      · exact checkRoot_ok_iff.mp (hincluded r hr) x hx
    refine ⟨fun s hs => ?_, hstanding⟩
    obtain ⟨x, hx, hkind⟩ := exists_of_forall₂_right hkinds hs
    obtain ⟨hx, hscreen⟩ := List.mem_filter.mp hx
    have hscreen : x.name ∈ screenElements := by simpa using hscreen
    rw [hkind]
    exact ((mem_screenElements hscreen).resolve_left fun h => h.2 (hstanding x hx)).1

/-- A model with boxes. -/
def boxDraft : Draft :=
  ⟨{ Model.named "lab" with entities := [{ Entity.named "Box" with
    fields := [Field.named "id" .int] }] }, []⟩

/-- A document with a menu and an include. -/
def boxMenu : String := "<lab><menu name='Main'/><include file='outer'/></lab>"

/-- The document that is included includes another one, with a tree and a shelf at its root. -/
def boxLibrary : Library := fun file =>
  if file = "outer" then .ok "<lab><include file='inner'/></lab>"
  else .ok <| "<lab><tree name='Boxes' entity='Box' parentfield='id' idfield='id' " ++
    "labelfield='id'/><shelf/></lab>"

/-- The tree is added at the root, and the shelf is skipped. -/
theorem boxes_read : ∃ d', Ends (read .generic boxLibrary boxMenu) boxDraft () d' ∧
    d'.model.screens.children.map (fun s => (s.name, s.kind.element)) =
      [("Main", "menu"), ("Boxes", "tree")] ∧
    d'.warnings = [.skipped "shelf" " under 'lab'"] := by
  have hrun : ((read .generic boxLibrary boxMenu).run boxDraft).1.toBool = true ∧
      ((read .generic boxLibrary boxMenu).run boxDraft).2.model.screens.children.map
        (fun s => (s.name, s.kind.element)) = [("Main", "menu"), ("Boxes", "tree")] ∧
      ((read .generic boxLibrary boxMenu).run boxDraft).2.warnings =
        [.skipped "shelf" " under 'lab'"] := by
    decide +kernel
  obtain ⟨hok, hscreens, hwarnings⟩ := hrun
  obtain ⟨_, hok⟩ := Except.exists_ok hok
  exact ⟨_, Prod.ext hok rfl, hscreens, hwarnings⟩

theorem boxes_at_root : ∃ after, Ends (read .generic boxLibrary boxMenu) boxDraft () after ∧
    ∃ root standing added, Xml.parse boxMenu = .ok root ∧
      Splices boxLibrary maxNesting root.children standing ∧
      after.model.screens.children = boxDraft.model.screens.children ++ added ∧
      List.Forall₂ (fun x s => s.kind.element = x.name)
        (standing.filter (screenElements.contains ·.name)) added ∧
      (∀ x ∈ root.children, x.name ∈ screenRootElements) ∧
      (∀ x ∈ standing, x.name ∉ screenRootElements → x ∉ root.children ∧
        (x.name = "tree" ∨ .skipped x.name s!" under '{after.model.name}'" ∈ after.warnings)) ∧
      (((∀ s ∈ added, s.kind.element ∈ ["menu", "form", "plugin"]) ∧
          ∀ x ∈ standing, x.name ∈ screenRootElements) ↔
        ∀ r, Includes boxLibrary maxNesting root.children r → checkRoot r = .ok ()) := by
  obtain ⟨d', hread, -⟩ := boxes_read
  exact ⟨d', hread, read_root_screens .generic boxLibrary boxMenu boxDraft d' hread⟩

/-- Reading a document can add a tree at the root. -/
theorem read_root_screens_not_all_allowed :
    ¬∀ (dialect : Dialect) (library : Library) (text : String) (d after : Draft),
      Ends (read dialect library text) d () after → ∀ added,
        after.model.screens.children = d.model.screens.children ++ added →
          ∀ s ∈ added, s.kind.element ∈ ["menu", "form", "plugin"] := by
  intro h
  obtain ⟨d', hread, hscreens, -⟩ := boxes_read
  have hallowed := h .generic boxLibrary boxMenu boxDraft d' hread _ rfl
  have htree : "tree" ∈ d'.model.screens.children.map fun s => s.kind.element := by
    have hkinds := congrArg (List.map Prod.snd) hscreens
    rw [List.map_map] at hkinds
    exact hkinds ▸ by simp
  obtain ⟨s, hs, hkind⟩ := List.mem_map.mp htree
  have hout := hallowed s hs
  rw [hkind] at hout
  simp at hout

end Documents

end Screens

end EntitySchema
