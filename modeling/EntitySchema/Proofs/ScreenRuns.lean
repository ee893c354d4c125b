import EntitySchema.Proofs.RootScreens

/-! Reading screens, rule by rule. A rule says what happens at the first of some elements and
how reading goes on from there, into the screen that it declares, into the document that it
includes, or past it. A reading by these rules comes to an end by itself, so that reading
elements always ends is a theorem: what gets smaller is how many more includes may be open,
and while that stays the same, the elements that are left. -/

namespace EntitySchema.Screens

open Xml (Element)

/-! ### Rules -/

/-- The warning about an element that declares no screen and includes nothing. -/
def skipWarning (parent : String) (x : Element) : Warning :=
  if x.name = "description" then
    ⟨.ignoredElement, "the <description> element is not supported in a ui-schema"⟩
  else .skipped x.name s!" under '{parent}'"

/-- The root of the document that the library has under a name. -/
def openDocument (library : Library) (file : String) : Except Failure Element :=
  library file >>= fun text => (Xml.parse text).mapError .document

/-- What becomes of an include that names a file, inside the includes that are open then, the
innermost first: the library is asked for the document, or it is not asked any more. -/
inductive Event where
  | asked (within : List String) (file : String)
  | refused (within : List String) (file : String)

namespace Event

/-- The includes that are open. -/
def within : Event → List String
  | asked within _ | refused within _ => within

/-- The file that the include names. -/
def file : Event → String
  | asked _ file | refused _ file => file

end Event

/-- Elements that stand inside the screen `parent` and inside open includes are read to the
end, or up to the first fault: from what was gathered before, to an outcome and to what is
gathered then. The events are those on the way, in their order. -/
inductive Reads (m : Model) (library : Library) : List String → String → List Element →
    Gathered → Except Failure Unit → Gathered → List Event → Prop
  | done {within : List String} {parent : String} {g : Gathered} :
      Reads m library within parent [] g (.ok ()) g []
  | skipped {within : List String} {parent : String} {x : Element} {xs : List Element}
      {g g' : Gathered} {o : Except Failure Unit} {events : List Event}
      (hname : x.name ∉ "include" :: screenElements)
      (rest : Reads m library within parent xs
        { g with warnings := g.warnings ++ [skipWarning parent x] } o g' events) :
      Reads m library within parent (x :: xs) g o g' events
  | undeclared {within : List String} {parent : String} {x : Element} {xs : List Element}
      {g : Gathered} {e : Failure} {noted : List Warning} (hname : x.name ∈ screenElements)
      (node : (readScreen m parent x).run g.warnings = (.error e, noted)) :
      Reads m library within parent (x :: xs) g (.error e) { g with warnings := noted } []
  | unfilled {within : List String} {parent : String} {x : Element} {xs : List Element}
      {g inner : Gathered} {s : Screen} {e : Failure} {noted : List Warning}
      {events : List Event} (hname : x.name ∈ screenElements)
      (node : Ends (readScreen m parent x) g.warnings s noted)
      (inside : Reads m library within s.name x.children ⟨[], noted⟩ (.error e) inner events) :
      Reads m library within parent (x :: xs) g (.error e)
        { g with warnings := inner.warnings } events
  | declared {within : List String} {parent : String} {x : Element} {xs : List Element}
      {g g' inner : Gathered} {s : Screen} {o : Except Failure Unit} {noted : List Warning}
      {events events' : List Event} (hname : x.name ∈ screenElements)
      (node : Ends (readScreen m parent x) g.warnings s noted)
      (inside : Reads m library within s.name x.children ⟨[], noted⟩ (.ok ()) inner events)
      (rest : Reads m library within parent xs
        ⟨g.screens ++ [{ s with children := inner.screens }], inner.warnings⟩ o g' events') :
      Reads m library within parent (x :: xs) g o g' (events ++ events')
  | unnamed {within : List String} {parent : String} {x : Element} {xs : List Element}
      {g : Gathered} (hname : x.name = "include") (hfile : x.filled? "file" = none) :
      Reads m library within parent (x :: xs) g (.error (.screen .unnamedInclude)) g []
  | refused {within : List String} {parent file : String} {x : Element} {xs : List Element}
      {g : Gathered} (hname : x.name = "include") (hfile : x.filled? "file" = some file)
      (hdeep : maxNesting ≤ within.length) :
      Reads m library within parent (x :: xs) g
        (.error (.inclusion file "includes are nested too deeply")) g [.refused within file]
  | unopened {within : List String} {parent file : String} {x : Element} {xs : List Element}
      {g : Gathered} {e : Failure} (hname : x.name = "include")
      (hfile : x.filled? "file" = some file) (hdepth : within.length < maxNesting)
      (hopen : openDocument library file = .error e) :
      Reads m library within parent (x :: xs) g (.error e) g [.asked within file]
  | unread {within : List String} {parent file : String} {x root : Element} {xs : List Element}
      {g g' : Gathered} {e : Failure} {events : List Event} (hname : x.name = "include")
      (hfile : x.filled? "file" = some file) (hdepth : within.length < maxNesting)
      (hopen : openDocument library file = .ok root)
      (inner : Reads m library (file :: within) parent root.children g (.error e) g' events) :
      Reads m library within parent (x :: xs) g (.error e) g' (.asked within file :: events)
  | included {within : List String} {parent file : String} {x root : Element}
      {xs : List Element} {g g₁ g' : Gathered} {o : Except Failure Unit}
      {events events' : List Event} (hname : x.name = "include")
      (hfile : x.filled? "file" = some file) (hdepth : within.length < maxNesting)
      (hopen : openDocument library file = .ok root)
      (inner : Reads m library (file :: within) parent root.children g (.ok ()) g₁ events)
      (rest : Reads m library within parent xs g₁ o g' events') :
      Reads m library within parent (x :: xs) g o g' (.asked within file :: events ++ events')

/-! ### Runs -/

variable {m : Model} {library : Library} {within : List String} {parent file : String}
  {x root : Element} {xs : List Element} {g g' : Gathered} {o : Except Failure Unit}

/-- Reads elements inside open includes. -/
def readWithin (m : Model) (library : Library) (within : List String) (parent : String)
    (xs : List Element) : Gathering Unit :=
  readElements m (includeScreens m library (maxNesting - within.length)) parent xs

theorem readWithin_nil : (readWithin m library within parent []).run g = (.ok (), g) := by
  unfold readWithin readElements
  rfl

/-- Every element declares a screen, is an include, or is skipped. -/
theorem element_cases (x : Element) : x.name ∈ screenElements ∨ x.name = "include" ∨
    x.name ∉ "include" :: screenElements := by
  simp only [List.mem_cons, not_or]
  tauto

theorem readElement_screen {inclusion : Inclusion} (hname : x.name ∈ screenElements) :
    readElement m inclusion parent x =
      Gathering.noting (readScreen m parent x) >>= fun screen =>
        Gathering.inside (readElements m inclusion screen.name x.children) >>= fun children =>
          Gathering.add { screen with children } := by
  obtain ⟨name, attributes, children, text⟩ := x
  simp only [screenElements, List.mem_cons, List.not_mem_nil, or_false] at hname
  rcases hname with rfl | rfl | rfl | rfl <;> (unfold readElement; rfl)

theorem readElement_include {inclusion : Inclusion} (hname : x.name = "include") :
    readElement m inclusion parent x = inclusion parent x := by
  obtain ⟨name, attributes, children, text⟩ := x
  subst hname
  unfold readElement
  rfl

theorem readElement_skipped {inclusion : Inclusion}
    (hname : x.name ∉ "include" :: screenElements) :
    readElement m inclusion parent x = Gathering.noting (note (skipWarning parent x)) := by
  obtain ⟨name, attributes, children, text⟩ := x
  simp only [screenElements, List.mem_cons, List.not_mem_nil, or_false, not_or] at hname
  obtain ⟨hinclude, hmenu, hform, htree, hplugin⟩ := hname
  unfold readElement skipWarning
  dsimp only
  split <;> first | contradiction | skip
  · rfl
  · next hdescription _ _ _ _ => rw [if_neg hdescription]

theorem readWithin_cons : readWithin m library within parent (x :: xs) =
    readElement m (includeScreens m library (maxNesting - within.length)) parent x >>= fun _ =>
      readWithin m library within parent xs := by
  unfold readWithin
  rw [readElements]

theorem readWithin_skipped (hname : x.name ∉ "include" :: screenElements) :
    (readWithin m library within parent (x :: xs)).run g =
      (readWithin m library within parent xs).run
        { g with warnings := g.warnings ++ [skipWarning parent x] } := by
  rw [readWithin_cons, readElement_skipped hname, run_bind]
  rfl

/-- What is inside is gathered from no screens, and given back. -/
theorem inside_run (p : Gathering Unit) (g : Gathered) :
    (Gathering.inside p).run g =
      match p.run ⟨[], g.warnings⟩ with
      | (.error e, inner) => (.error e, { g with warnings := inner.warnings })
      | (.ok _, inner) => (.ok inner.screens, { g with warnings := inner.warnings }) := by
  have hinside : (Gathering.inside p).run g =
      ((p.run ⟨[], g.warnings⟩).1.map fun _ => (p.run ⟨[], g.warnings⟩).2.screens,
        { g with warnings := (p.run ⟨[], g.warnings⟩).2.warnings }) := rfl
  rw [hinside]
  rcases p.run ⟨[], g.warnings⟩ with ⟨_ | _, inner⟩ <;> rfl

/-- A screen is read without what is inside, then what is inside is gathered for itself, and
then it is added. -/
theorem readWithin_screen (hname : x.name ∈ screenElements) :
    (readWithin m library within parent (x :: xs)).run g =
      match (readScreen m parent x).run g.warnings with
      | (.error e, noted) => (.error e, { g with warnings := noted })
      | (.ok s, noted) =>
        match (readWithin m library within s.name x.children).run ⟨[], noted⟩ with
        | (.error e, inner) => (.error e, { g with warnings := inner.warnings })
        | (.ok _, inner) => (readWithin m library within parent xs).run
            ⟨g.screens ++ [{ s with children := inner.screens }], inner.warnings⟩ := by
  have hnode : (Gathering.noting (readScreen m parent x)).run g =
      (((readScreen m parent x).run g.warnings).1,
        { g with warnings := ((readScreen m parent x).run g.warnings).2 }) := rfl
  rw [readWithin_cons, readElement_screen hname, run_bind, run_bind, hnode]
  rcases (readScreen m parent x).run g.warnings with ⟨_ | s, noted⟩
  · rfl
  · unfold readWithin
    dsimp only
    rw [run_bind, inside_run]
    rcases (readElements m _ s.name x.children).run ⟨[], noted⟩ with ⟨_ | _, inner⟩ <;> rfl

theorem readWithin_unnamed (hname : x.name = "include") (hfile : x.filled? "file" = none) :
    (readWithin m library within parent (x :: xs)).run g =
      (.error (.screen .unnamedInclude), g) := by
  rw [readWithin_cons, readElement_include hname, run_bind]
  have hincluded : includedFile x = .error .unnamedInclude := by
    unfold includedFile
    rw [hfile]
  cases maxNesting - within.length <;> (unfold includeScreens; rw [run_bind, hincluded]; rfl)

theorem includedFile_ok (hfile : x.filled? "file" = some file) : includedFile x = .ok file := by
  unfold includedFile
  rw [hfile]

theorem readWithin_refused (hname : x.name = "include") (hfile : x.filled? "file" = some file)
    (hdeep : maxNesting ≤ within.length) :
    (readWithin m library within parent (x :: xs)).run g =
      (.error (.inclusion file "includes are nested too deeply"), g) := by
  rw [readWithin_cons, readElement_include hname, run_bind, Nat.sub_eq_zero_of_le hdeep]
  unfold includeScreens
  rw [run_bind, includedFile_ok hfile]
  rfl

theorem includeScreens_run {depth : Nat} (hfile : x.filled? "file" = some file) :
    (includeScreens m library (depth + 1) parent x).run g =
      match openDocument library file with
      | .error e => (.error e, g)
      | .ok root =>
        (readElements m (includeScreens m library depth) parent root.children).run g := by
  unfold includeScreens openDocument
  rw [includedFile_ok hfile]
  refine (run_lift_bind (.ok file) _ g).trans ((run_lift_bind (library file) _ g).trans ?_)
  cases library file with
  | error e => rfl
  | ok text =>
    have hopen : (Except.ok text >>= fun text => (Xml.parse text).mapError Failure.document) =
        (Xml.parse text).mapError .document := rfl
    rw [hopen]
    refine (run_lift_bind ((Xml.parse text).mapError .document) _ g).trans ?_
    cases (Xml.parse text).mapError Failure.document <;> rfl

/-- An include is followed while fewer than the greatest number of includes are open. -/
theorem readWithin_include (hname : x.name = "include") (hfile : x.filled? "file" = some file)
    (hdepth : within.length < maxNesting) :
    (readWithin m library within parent (x :: xs)).run g =
      match openDocument library file with
      | .error e => (.error e, g)
      | .ok root =>
        match (readWithin m library (file :: within) parent root.children).run g with
        | (.error e, g') => (.error e, g')
        | (.ok _, g') => (readWithin m library within parent xs).run g' := by
  have hleft : maxNesting - within.length = maxNesting - (file :: within).length + 1 := by
    rw [List.length_cons]
    omega
  rw [readWithin_cons, readElement_include hname, run_bind, hleft, includeScreens_run hfile]
  cases openDocument library file with
  | error e => rfl
  | ok root =>
    unfold readWithin
    dsimp only
    rcases (readElements m _ parent root.children).run g with ⟨_ | _, g'⟩ <;> rfl

/-! ### Rules and runs -/

/-- What the rules tell is what reading elements does. -/
theorem Reads.run {events : List Event} (h : Reads m library within parent xs g o g' events) :
    (readWithin m library within parent xs).run g = (o, g') := by
  induction h with
  | done => exact readWithin_nil
  | skipped hname _ ih => rw [readWithin_skipped hname, ih]
  | undeclared hname node => rw [readWithin_screen hname, node]
  | unfilled hname node _ ih =>
    rw [readWithin_screen hname, node]
    dsimp only
    rw [ih]
  | declared hname node _ _ ihinside ihrest =>
    rw [readWithin_screen hname, node]
    dsimp only
    rw [ihinside]
    exact ihrest
  | unnamed hname hfile => exact readWithin_unnamed hname hfile
  | refused hname hfile hdeep => exact readWithin_refused hname hfile hdeep
  | unopened hname hfile hdepth hopen => rw [readWithin_include hname hfile hdepth, hopen]
  | unread hname hfile hdepth hopen _ ih =>
    rw [readWithin_include hname hfile hdepth, hopen]
    dsimp only
    rw [ih]
  | included hname hfile hdepth hopen _ _ ihinner ihrest =>
    rw [readWithin_include hname hfile hdepth, hopen]
    dsimp only
    rw [ihinner]
    exact ihrest

theorem sizeOf_children_lt (x : Element) (xs : List Element) :
    sizeOf x.children < sizeOf (x :: xs) := by
  obtain ⟨name, attributes, children, text⟩ := x
  simp only [List.cons.sizeOf_spec, Element.mk.sizeOf_spec]
  omega

theorem sizeOf_rest_lt (x : Element) (xs : List Element) : sizeOf xs < sizeOf (x :: xs) := by
  simp only [List.cons.sizeOf_spec]
  omega

/-- Reading elements comes to an end by the rules, whatever the library holds. -/
theorem exists_reads (m : Model) (library : Library) (within : List String) (parent : String)
    (xs : List Element) (g : Gathered) :
    ∃ o g' events, Reads m library within parent xs g o g' events := by
  match xs with
  | [] => exact ⟨_, _, _, .done⟩
  | x :: xs =>
    rcases element_cases x with hname | hname | hname
    · rcases hnode : (readScreen m parent x).run g.warnings with ⟨e | s, noted⟩
      · exact ⟨_, _, _, .undeclared hname hnode⟩
      obtain ⟨o, inner, events, hinside⟩ := exists_reads m library within s.name x.children
        ⟨[], noted⟩
      cases o with
      | error e => exact ⟨_, _, _, .unfilled hname hnode hinside⟩
      | ok =>
        obtain ⟨o, g', events', hrest⟩ := exists_reads m library within parent xs
          ⟨g.screens ++ [{ s with children := inner.screens }], inner.warnings⟩
        exact ⟨_, _, _, .declared hname hnode hinside hrest⟩
    · cases hfile : x.filled? "file" with
      | none => exact ⟨_, _, _, .unnamed hname hfile⟩
      | some file =>
        by_cases hdepth : within.length < maxNesting
        · cases hopen : openDocument library file with
          | error e => exact ⟨_, _, _, .unopened hname hfile hdepth hopen⟩
          | ok root =>
            obtain ⟨o, g₁, events, hinner⟩ :=
              exists_reads m library (file :: within) parent root.children g
            cases o with
            | error e => exact ⟨_, _, _, .unread hname hfile hdepth hopen hinner⟩
            | ok =>
              obtain ⟨o, g', events', hrest⟩ := exists_reads m library within parent xs g₁
              exact ⟨_, _, _, .included hname hfile hdepth hopen hinner hrest⟩
        · exact ⟨_, _, _, .refused hname hfile (Nat.le_of_not_lt hdepth)⟩
    · obtain ⟨o, g', events, hrest⟩ := exists_reads m library within parent xs
        { g with warnings := g.warnings ++ [skipWarning parent x] }
      exact ⟨_, _, _, .skipped hname hrest⟩
  -- an include that is opened leaves room for one less, whatever its document holds; a screen
  -- and the elements behind one are smaller
  termination_by (maxNesting - within.length, sizeOf xs)
  decreasing_by
  · exact .right _ (sizeOf_children_lt x xs)
  · exact .right _ (sizeOf_rest_lt x xs)
  · exact .left _ _ (by simp only [List.length_cons]; omega)
  · exact .right _ (sizeOf_rest_lt x xs)
  · exact .right _ (sizeOf_rest_lt x xs)

/-! ### Documents -/

section Documents

variable {dialect : Dialect} {text : String} {d d' : Draft}

/-- The draft of a model with the screens that were gathered. -/
def Gathered.draft (m : Model) (g : Gathered) : Draft :=
  ⟨{ m with screens := { m.screens with children := g.screens } }, g.warnings⟩

/-- A screen document is read into a draft: there is a fault in the text, at its root or in the
name that it gives the model, or the elements inside its root are read, into a model that has
its titles. -/
inductive ReadsDocument (dialect : Dialect) (library : Library) (text : String) (d : Draft) :
    Except Failure Unit → Draft → List Event → Prop
  | malformed {fault : Xml.Fault} (hroot : Xml.parse text = .error fault) :
      ReadsDocument dialect library text d (.error (.document fault)) d []
  | disallowed {root : Element} {fault : ScreenFault} (hroot : Xml.parse text = .ok root)
      (hchecked : checkRoot root = .error fault) :
      ReadsDocument dialect library text d (.error (.screen fault)) d []
  | illegal {root : Element} {fault : Identifier.Fault} (hroot : Xml.parse text = .ok root)
      (hchecked : checkRoot root = .ok ()) (hname : checkName root dialect = .error fault) :
      ReadsDocument dialect library text d (.error (.identifier fault)) d []
  | admitted {root : Element} {g : Gathered} {o : Except Failure Unit} {events : List Event}
      (hroot : Xml.parse text = .ok root) (hchecked : checkRoot root = .ok ())
      (hname : checkName root dialect = .ok ())
      (reads : Reads (entitle root d.model) library [] (entitle root d.model).name root.children
        ⟨d.model.screens.children, d.warnings⟩ o g events) :
      ReadsDocument dialect library text d o (g.draft (entitle root d.model)) events

theorem read_eq {root : Element} (hroot : Xml.parse text = .ok root) :
    read dialect library text = readRoot dialect library root := by
  unfold read
  rw [hroot]
  rfl

theorem gather_readWithin (m : Model) (warnings : List Warning) (root : Element) :
    (gather fun m => readElements m (includeScreens m library maxNesting) m.name root.children).run
        ⟨m, warnings⟩ =
      let (o, g) := (readWithin m library [] m.name root.children).run
        ⟨m.screens.children, warnings⟩
      (o, g.draft m) := rfl

/-- What the rules tell is what reading a document does. -/
theorem ReadsDocument.run {events : List Event}
    (h : ReadsDocument dialect library text d o d' events) :
    (read dialect library text).run d = (o, d') := by
  cases h with
  | malformed hroot =>
    unfold read
    rw [hroot]
    rfl
  | disallowed hroot hchecked =>
    rw [read_eq hroot]
    unfold readRoot
    rw [hchecked]
    rfl
  | illegal hroot hchecked hname =>
    rw [read_eq hroot]
    unfold readRoot
    rw [hchecked, hname]
    rfl
  | @admitted root g _ _ hroot hchecked hname reads =>
    rw [read_eq hroot]
    unfold readRoot
    rw [hchecked, hname]
    refine (gather_readWithin (entitle root d.model) d.warnings root).trans ?_
    have hrun : (readWithin (entitle root d.model) library [] (entitle root d.model).name
        root.children).run ⟨(entitle root d.model).screens.children, d.warnings⟩ = (o, g) :=
      reads.run
    rw [hrun]

/-- Reading a document comes to an end by the rules, whatever the library holds. -/
theorem exists_readsDocument (dialect : Dialect) (library : Library) (text : String) (d : Draft) :
    ∃ o d' events, ReadsDocument dialect library text d o d' events := by
  cases hroot : Xml.parse text with
  | error fault => exact ⟨_, _, _, .malformed hroot⟩
  | ok root =>
    cases hchecked : checkRoot root with
    | error fault => exact ⟨_, _, _, .disallowed hroot hchecked⟩
    | ok =>
      cases hname : checkName root dialect with
      | error fault => exact ⟨_, _, _, .illegal hroot hchecked hname⟩
      | ok =>
        obtain ⟨o, g, events, hreads⟩ := exists_reads (entitle root d.model) library []
          (entitle root d.model).name root.children ⟨d.model.screens.children, d.warnings⟩
        exact ⟨_, _, _, .admitted hroot hchecked hname hreads⟩

end Documents

end EntitySchema.Screens
