import EntitySchema.Screens
import EntitySchema.Proofs.Resolution
import EntitySchema.Proofs.Terms

/-! Reading screens. What a screen says about the model is there: the entity of a form or a
tree exists, and the fields that it names are visible on the entity, under just these
names. Reading a screen document adds such closed screens only, however its includes are
nested; that holds of runs which fail as well. -/

namespace EntitySchema

variable {m m' : Model} {s : Screen}

/-! ### Failures -/

/-- The fault is that a form hides a field which is not visible on its entity. -/
def ScreenFault.isUnknownHidden : ScreenFault → Bool
  | .hiddenUnknownField .. => true
  | _ => false

/-- The failure is that a form hides a field which is not visible on its entity. -/
def Failure.isUnknownHidden : Failure → Bool
  | .screen fault => fault.isUnknownHidden
  | _ => false

/-- No fault is that a form hides an unknown field. -/
def NoUnknownHidden {α : Type} (x : Except ScreenFault α) : Prop :=
  FailsAs (·.isUnknownHidden = false) x

/-! ### Closed screens -/

/-- The entity of the form exists, and the fields that it hides or lists are visible on it. -/
structure Form.ClosedOver (m : Model) (form : Form) : Prop where
  entity : form.entity ∈ m.entityNames
  hidden : ∀ name ∈ form.hideFields, m.Sees form.entity name
  compact : ∀ entry ∈ form.compactView,
    ∃ name, m.Sees form.entity name ∧ entry = s!"{form.entity}_{name}"

/-- The entity of the tree exists, and the three fields of the tree are visible on it. -/
structure Tree.ClosedOver (m : Model) (tree : Tree) : Prop where
  entity : tree.entity ∈ m.entityNames
  parent : m.Sees tree.entity tree.parentField
  id : m.Sees tree.entity tree.idField
  label : m.Sees tree.entity tree.labelField

/-- What the screen says about the model is there; menus and plugins say nothing about it. -/
def ScreenKind.ClosedOver (m : Model) : ScreenKind → Prop
  | .form f => f.ClosedOver m
  | .tree t => t.ClosedOver m
  | .root | .menu _ | .plugin _ => True

/-- The screen itself is closed, and no group has both rights; other screens may be inside. -/
structure Screen.ClosedOver (m : Model) (s : Screen) : Prop where
  kind : s.kind.ClosedOver m
  groups : ∀ group, s.group = some group → s.groupRead ≠ some group

/-- Only the entities of the model count. -/
theorem Screen.ClosedOver.of_entities (h : s.ClosedOver m) (heq : m'.entities = m.entities) :
    s.ClosedOver m' := by
  have hsees {entity field : String} (hsees : m.Sees entity field) : m'.Sees entity field :=
    hsees.grows (.of_eq Entity.isChange_grows heq)
  have hnames : m'.entityNames = m.entityNames := congrArg (List.map Entity.name) heq
  refine ⟨?_, h.groups⟩
  have hkind := h.kind
  cases hs : s.kind with
  | form form =>
    rw [hs] at hkind
    refine ⟨hnames ▸ hkind.entity, fun name hname => hsees (hkind.hidden name hname), ?_⟩
    intro entry hentry
    obtain ⟨name, hname, hentry⟩ := hkind.compact entry hentry
    exact ⟨name, hsees hname, hentry⟩
  | tree tree =>
    rw [hs] at hkind
    exact ⟨hnames ▸ hkind.entity, hsees hkind.parent, hsees hkind.id, hsees hkind.label⟩
  | root | menu | plugin => trivial

/-- All screens of the model are closed. -/
def Model.ScreensClosed (m : Model) : Prop := ∀ s ∈ m.screens.walk, s.ClosedOver m

namespace Screen

theorem walk_eq (s : Screen) : s.walk = s :: s.inner := by
  rcases s
  simp [walk, inner]

theorem walkAll_append (xs ys : List Screen) : walkAll (xs ++ ys) = walkAll xs ++ walkAll ys := by
  induction xs with
  | nil => rfl
  | cons x xs ih => simp [walkAll, ih]

end Screen

/-- Closed screens may be added inside the root. -/
theorem Model.ScreensClosed.append {children added : List Screen} (hm : m.ScreensClosed)
    (hchildren : children = m.screens.children ++ added)
    (hadded : ∀ s ∈ Screen.walkAll added, s.ClosedOver m) :
    { m with screens := { m.screens with children } }.ScreensClosed := by
  have hroot := hm m.screens (by simp [Screen.walk_eq])
  intro s hs
  rw [Screen.walk_eq, List.mem_cons] at hs
  refine .of_entities (m := m) ?_ rfl
  rcases hs with rfl | hs
  · exact ⟨hroot.kind, hroot.groups⟩
  · unfold Screen.inner at hs
    rw [hchildren, Screen.walkAll_append, List.mem_append] at hs
    exact hs.elim (fun hs => hm s (by simp [Screen.walk_eq, Screen.inner, hs])) (hadded s)

namespace Screens

open Xml (Element)

/-! ### Reading single screens -/

section Nodes

variable {e : Entity} {x : Element} {noted noted' : List Warning} {screen name parent : String}

theorem readFields_ok {key : String} {names : List String}
    (h : readFields m screen e x key = .ok names) : ∀ name ∈ names, m.Sees e.name name := by
  intro name hname
  obtain ⟨written, _, hread⟩ := exists_of_forall₂_right (Except.mapM_ok h) hname
  split at hread
  · next f hf =>
    cases hread
    exact Reference.sees_of_visibleFieldIgnoringCase? hf
  · cases hread

theorem formEntity_ok (h : formEntity m screen x = .ok e) : e ∈ m.entities := by
  unfold formEntity at h
  split at h
  · cases h
  · split at h
    · next hfound => cases h; exact Reference.mem_of_entityIgnoringCase? hfound
    · cases h

theorem readForm_closed {form : Form} (h : Ends (readForm m screen x) noted (form, e) noted') :
    form.ClosedOver m := by
  obtain ⟨entity, hentity, h⟩ := h.lift_bind
  obtain ⟨view, n₁, _, h⟩ := h.bind
  obtain ⟨limit, n₂, _, h⟩ := h.bind
  obtain ⟨sortOrder, n₃, _, h⟩ := h.bind
  obtain ⟨filter, n₄, _, h⟩ := h.bind
  obtain ⟨hideFields, hhidden, h⟩ := h.lift_bind
  obtain ⟨compact, hcompact, h⟩ := h.lift_bind
  obtain ⟨heq, -⟩ := h.pure
  obtain ⟨rfl, rfl⟩ := Prod.mk.inj heq
  refine ⟨List.mem_map_of_mem (formEntity_ok (Except.mapError_ok (g := Failure.screen) hentity)),
    readFields_ok (Except.mapError_ok (g := Failure.screen) hhidden), fun entry hentry => ?_⟩
  obtain ⟨name, hname, rfl⟩ := List.mem_map.mp hentry
  exact ⟨name, readFields_ok (Except.mapError_ok (g := Failure.screen) hcompact) name hname, rfl⟩

theorem treeField_ok {written : String} (h : treeField m screen e written = .ok name) :
    m.Sees e.name name := by
  unfold treeField at h
  split at h
  · next hfound => cases h; exact Reference.sees_of_visibleFieldIgnoringCase? hfound
  · cases h

theorem readTree_closed {tree : Tree} (h : readTree m screen x = .ok (tree, e)) :
    tree.ClosedOver m := by
  obtain ⟨entityName, _, h⟩ := Except.bind_ok h
  obtain ⟨parentName, _, h⟩ := Except.bind_ok h
  obtain ⟨idName, _, h⟩ := Except.bind_ok h
  obtain ⟨labelName, _, h⟩ := Except.bind_ok h
  split at h
  · next entity hfound =>
    obtain ⟨parent, hparent, h⟩ := Except.bind_ok h
    obtain ⟨id, hid, h⟩ := Except.bind_ok h
    obtain ⟨label, hlabel, h⟩ := Except.bind_ok h
    cases h
    exact ⟨List.mem_map_of_mem (Reference.mem_of_entityIgnoringCase? hfound),
      treeField_ok hparent, treeField_ok hid, treeField_ok hlabel⟩
  · cases h

theorem readKind_closed {kind : ScreenKind} {scope : String}
    (h : Ends (readKind m screen x) noted (kind, scope) noted') : kind.ClosedOver m := by
  unfold readKind at h
  split at h
  · obtain ⟨heq, -⟩ := h.pure
    cases heq
    trivial
  · obtain ⟨⟨form, entity⟩, n₁, hform, h⟩ := h.bind
    obtain ⟨heq, -⟩ := h.pure
    cases heq
    exact readForm_closed hform
  · obtain ⟨⟨tree, entity⟩, htree, h⟩ := h.lift_bind
    obtain ⟨heq, -⟩ := h.pure
    cases heq
    exact readTree_closed (Except.mapError_ok (g := Failure.screen) htree)
  · obtain ⟨plugin, _, h⟩ := h.lift_bind
    obtain ⟨heq, -⟩ := h.pure
    cases heq
    trivial

/-- A screen that is read is closed, whatever is put inside it. -/
theorem readScreen_closed (h : Ends (readScreen m parent x) noted s noted')
    (children : List Screen) : { s with children }.ClosedOver m := by
  obtain ⟨name, _, h⟩ := h.lift_bind
  obtain ⟨hgroups, h⟩ := h.guard
  obtain ⟨⟨kind, scope⟩, n₁, hkind, h⟩ := h.bind
  obtain ⟨rfl, -⟩ := h.pure
  refine ⟨readKind_closed hkind, fun group hgroup hread => hgroups ?_⟩
  simp_all

end Nodes

end Screens

/-! ### Terms of reading -/

namespace Terms

/-- Reading a single screen changes warnings only. -/
def screenNotes : Terms (List Warning) := .keeping (fun _ => ()) (·.isUnknownHidden = false)

/-- Closed screens are added behind those that are there. Only the library can fail as if
a form hid an unknown field. -/
def gathering (m : Model) (library : Screens.Library) : Terms Screens.Gathered where
  changes g g' := ∃ added, g'.screens = g.screens ++ added ∧
    ∀ s ∈ Screen.walkAll added, s.ClosedOver m
  failures e := e.isUnknownHidden = true → ∃ file, library file = .error e
  refl g := ⟨[], by simp, by simp [Screen.walkAll]⟩
  trans := by
    rintro g₁ g₂ g₃ ⟨xs, hxs, hclosed⟩ ⟨ys, hys, hclosed'⟩
    refine ⟨xs ++ ys, by rw [hys, hxs, List.append_assoc], fun s hs => ?_⟩
    rw [Screen.walkAll_append] at hs
    exact (List.mem_append.mp hs).elim (hclosed s) (hclosed' s)

/-- Reading a screen document leaves entities alone and closed screens closed. -/
def screens (library : Screens.Library) : Terms Draft where
  changes d d' := d'.model.entities = d.model.entities ∧
    (d.model.ScreensClosed → d'.model.ScreensClosed)
  failures e := e.isUnknownHidden = true → ∃ file, library file = .error e
  refl _ := ⟨rfl, id⟩
  trans h h' := ⟨h'.1.trans h.1, h'.2 ∘ h.2⟩

end Terms

namespace Screens

open Xml (Element)

/-! ### Failures of single screens -/

section Failures

variable {x : Element} {form key parent screen : String} {noted : List Warning}

theorem lift_heeds {α : Type} {y : Except ScreenFault α} (h : NoUnknownHidden y) :
    Heeds .screenNotes (liftM y : Noting α) noted := .lift (.mapError h)

theorem readView_fails : NoUnknownHidden (readView form x) := by
  intro fault h
  unfold readView at h
  split at h <;> cases h
  rfl

theorem readLimit_fails : NoUnknownHidden (readLimit form x) := by
  intro fault h
  unfold readLimit at h
  split at h
  · cases h
  · split at h <;> cases h
    rfl

theorem readSortOrder_fails : NoUnknownHidden (readSortOrder form x) := by
  intro fault h
  unfold readSortOrder at h
  split at h <;> cases h
  rfl

theorem formEntity_fails : NoUnknownHidden (formEntity m form x) := by
  intro fault h
  unfold formEntity at h
  split at h
  · cases h
    rfl
  · split at h <;> cases h
    rfl

theorem readFields_fails {e : Entity} : NoUnknownHidden (readFields m form e x key) := by
  refine FailsAs.mapM fun name _ fault h => ?_
  split at h <;> cases h
  rfl

theorem readFilter_heeds : Heeds .screenNotes (readFilter form x) noted := by
  unfold readFilter
  split
  · exact .pure
  · split
    · dsimp only
      split
      · exact .bind (.modify rfl) fun _ _ _ => .pure
      · exact .pure
    · exact .throw rfl

theorem readForm_heeds : Heeds .screenNotes (readForm m form x) noted :=
  .bind (lift_heeds formEntity_fails) fun _ _ _ =>
    .bind (lift_heeds readView_fails) fun _ _ _ =>
    .bind (lift_heeds readLimit_fails) fun _ _ _ =>
    .bind (lift_heeds readSortOrder_fails) fun _ _ _ =>
    readFilter_heeds.bind fun _ _ _ =>
    .bind (lift_heeds readFields_fails) fun _ _ _ =>
    .bind (lift_heeds readFields_fails) fun _ _ _ => .pure

theorem requireInTree_fails {tree : String} : NoUnknownHidden (requireInTree tree x key) := by
  intro fault h
  unfold requireInTree at h
  split at h <;> cases h
  rfl

theorem treeField_fails {tree name : String} {e : Entity} :
    NoUnknownHidden (treeField m tree e name) := by
  intro fault h
  unfold treeField at h
  split at h <;> cases h
  rfl

theorem readTree_fails {tree : String} : NoUnknownHidden (readTree m tree x) := by
  unfold readTree
  refine .bind requireInTree_fails fun _ _ => .bind requireInTree_fails fun _ _ =>
    .bind requireInTree_fails fun _ _ => .bind requireInTree_fails fun _ _ => ?_
  split
  · exact .bind treeField_fails fun _ _ => .bind treeField_fails fun _ _ =>
      .bind treeField_fails fun _ _ => .pure
  · exact .throw rfl

theorem readPlugin_fails {plugin : String} : NoUnknownHidden (readPlugin plugin x) := by
  intro fault h
  unfold readPlugin at h
  split at h <;> cases h
  rfl

theorem readName_fails : NoUnknownHidden (readName parent x) := by
  intro fault h
  unfold readName at h
  dsimp only at h
  split at h <;> cases h
  rfl

theorem readKind_heeds : Heeds .screenNotes (readKind m screen x) noted := by
  unfold readKind
  split
  · exact .pure
  · exact readForm_heeds.bind fun _ _ _ => .pure
  · exact .bind (lift_heeds readTree_fails) fun _ _ _ => .pure
  · exact .bind (lift_heeds readPlugin_fails) fun _ _ _ => .pure

theorem readScreen_heeds : Heeds .screenNotes (readScreen m parent x) noted :=
  .bind (lift_heeds readName_fails) fun _ _ _ => .guard rfl <|
    readKind_heeds.bind fun _ _ _ => .pure

end Failures

/-! ### Gathering -/

section Gathering

variable {α : Type} {library : Library} {g g' : Gathered}

theorem noting_heeds {work : Noting α} (h : Heeds .screenNotes work g.warnings) :
    Heeds (.gathering m library) (Gathering.noting work) g where
  changes := (Terms.gathering m library).refl g
  failures e he hunknown := absurd hunknown (Bool.eq_false_iff.mp (h.failures e he))

theorem noting_ends {work : Noting α} {a : α} (h : Ends (Gathering.noting work) g a g') :
    g'.screens = g.screens ∧ Ends work g.warnings a g'.warnings := by
  unfold Ends Gathering.noting at h
  rcases hwork : work.run g.warnings with ⟨outcome, warnings⟩
  simp only [ExceptT.run_mk] at h
  rw [hwork] at h
  cases h
  exact ⟨rfl, hwork⟩

theorem lift_gathering {y : Except ScreenFault α} (h : NoUnknownHidden y) :
    Heeds (.gathering m library) (liftM y : Gathering α) g :=
  .lift (.mapError fun e he hunknown => absurd hunknown (Bool.eq_false_iff.mp (h e he)))

/-- Screens that are gathered inside are not gathered here. -/
theorem inside_heeds {work : Gathering Unit}
    (h : Heeds (.gathering m library) work { g with screens := [] }) :
    Heeds (.gathering m library) (Gathering.inside work) g := by
  refine ⟨(Terms.gathering m library).refl g, fun e he => h.failures e ?_⟩
  unfold Gathering.inside at he
  simp only [ExceptT.run_mk] at he
  rcases hrun : work.run { g with screens := [] } with ⟨_ | _, inner⟩
  · rw [hrun] at he
    cases he
    rfl
  · rw [hrun] at he
    cases he

theorem inside_ends {work : Gathering Unit} {children : List Screen}
    (h : Ends (Gathering.inside work) g children g') :
    ∃ inner : Gathered, inner.screens = children ∧ g' = { g with warnings := inner.warnings } ∧
      Ends work { g with screens := [] } () inner := by
  unfold Ends Gathering.inside at h
  rcases hwork : work.run { g with screens := [] } with ⟨_ | u, inner⟩
  · simp only [ExceptT.run_mk] at h
    rw [hwork] at h
    cases h
  · simp only [ExceptT.run_mk] at h
    rw [hwork] at h
    cases h
    exact ⟨inner, rfl, rfl, hwork⟩

theorem add_heeds (h : ∀ s' ∈ s.walk, s'.ClosedOver m) :
    Heeds (.gathering m library) (Gathering.add s) g :=
  .modify ⟨[s], rfl, by simpa [Screen.walkAll] using h⟩

/-- A screen that is read is added with what is gathered inside it. -/
theorem addScreen_heeds {parent : String} {x : Element} (work : String → Gathering Unit)
    (hwork : ∀ name g, Heeds (.gathering m library) (work name) g) :
    Heeds (.gathering m library) (Gathering.noting (readScreen m parent x) >>= fun screen =>
      Gathering.inside (work screen.name) >>= fun children =>
        Gathering.add { screen with children }) g := by
  refine (noting_heeds readScreen_heeds).bind fun screen g₁ hscreen =>
    (inside_heeds (hwork screen.name _)).bind fun children g₂ hchildren => add_heeds fun s hs => ?_
  obtain ⟨inner, rfl, -, hinner⟩ := inside_ends hchildren
  obtain ⟨added, hadded, hclosed⟩ := (hwork screen.name _).of_ends hinner
  rw [Screen.walk_eq, List.mem_cons] at hs
  rcases hs with rfl | hs
  · exact readScreen_closed (noting_ends hscreen).2 _
  · rw [hadded] at hs
    exact hclosed s hs

variable {inclusion : Inclusion}

mutual

/-- What an element declares is closed, with all that is inside it. -/
theorem readElement_heeds
    (hinclusion : ∀ parent x g, Heeds (.gathering m library) (inclusion parent x) g) :
    ∀ (x : Element) (parent : String) (g : Gathered),
      Heeds (.gathering m library) (readElement m inclusion parent x) g
  | ⟨name, attributes, children, text⟩, parent, g => by
    unfold readElement
    dsimp only
    split
    · exact hinclusion _ _ _
    · exact noting_heeds (.modify rfl)
    iterate 4
      · exact addScreen_heeds (readElements m inclusion · children)
          (readElements_heeds hinclusion children)
    · exact noting_heeds (.modify rfl)

theorem readElements_heeds
    (hinclusion : ∀ parent x g, Heeds (.gathering m library) (inclusion parent x) g) :
    ∀ (xs : List Element) (parent : String) (g : Gathered),
      Heeds (.gathering m library) (readElements m inclusion parent xs) g
  | [], _, _ => by
    unfold readElements
    exact .pure
  | x :: rest, parent, g => by
    unfold readElements
    exact (readElement_heeds hinclusion x parent g).bind fun _ g' _ =>
      readElements_heeds hinclusion rest parent g'

end

theorem includedFile_fails {x : Element} : NoUnknownHidden (includedFile x) := by
  intro fault h
  unfold includedFile at h
  split at h <;> cases h
  rfl

/-- Included documents add closed screens only, by induction on how deep includes may nest. -/
theorem includeScreens_heeds : ∀ (depth : Nat) (parent : String) (x : Element) (g : Gathered),
    Heeds (.gathering m library) (includeScreens m library depth parent x) g
  | 0, _, x, g => by
    unfold includeScreens
    exact .bind (lift_gathering includedFile_fails) fun _ _ _ => .throw nofun
  | depth + 1, parent, x, g => by
    unfold includeScreens
    refine .bind (lift_gathering includedFile_fails) fun file _ _ => ?_
    refine .lift_bind (fun e he _ => ⟨file, he⟩) fun text _ => ?_
    exact .bind (.lift (.mapError fun _ _ => nofun)) fun root _ _ =>
      readElements_heeds (includeScreens_heeds depth) root.children _ _

end Gathering

/-! ### Reading a document -/

section Documents

variable {library : Library} {dialect : Dialect} {d d' : Draft}

theorem checkRoot_fails {root : Element} : NoUnknownHidden (checkRoot root) := by
  intro fault h
  unfold checkRoot at h
  split at h <;> cases h
  rfl

theorem entitle_closed {root : Element} (hm : m.ScreensClosed) :
    (entitle root m).ScreensClosed := by
  intro s hs
  rw [Screen.walk_eq, List.mem_cons] at hs
  rcases hs with rfl | hs
  · have hroot := hm m.screens (by simp [Screen.walk_eq])
    exact Screen.ClosedOver.of_entities ⟨hroot.kind, hroot.groups⟩ rfl
  · exact (hm s (by rw [Screen.walk_eq]; exact List.mem_cons_of_mem _ hs)).of_entities rfl

theorem gather_heeds {work : Model → Gathering Unit}
    (hwork : ∀ g, Heeds (.gathering d.model library) (work d.model) g) :
    Heeds (.screens library) (gather work) d := by
  obtain ⟨⟨added, hadded, hadds⟩, hfailures⟩ :=
    hwork { screens := d.model.screens.children, warnings := d.warnings }
  exact ⟨⟨rfl, fun hclosed => hclosed.append hadded hadds⟩, hfailures⟩

theorem read_heeds {text : String} : Heeds (.screens library) (read dialect library text) d := by
  refine .bind (.lift (.mapError fun _ _ => nofun)) fun root _ _ => ?_
  refine .bind (.lift (.mapError fun e he hunknown => ?_)) fun _ _ _ => ?_
  · exact absurd hunknown (Bool.eq_false_iff.mp (checkRoot_fails e he))
  refine .bind (.lift (.mapError fun _ _ => nofun)) fun _ _ _ => ?_
  refine .bind (Reading.change_heeds ⟨rfl, entitle_closed⟩) fun _ d₁ _ => ?_
  exact gather_heeds fun g => readElements_heeds (includeScreens_heeds maxNesting) _ _ _

end Documents

end Screens

end EntitySchema
