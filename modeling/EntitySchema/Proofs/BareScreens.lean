import EntitySchema.Proofs.Documents
import EntitySchema.Proofs.Terms

/-! Screens before a screen document is read. Schema documents and passes work on terms:
documents leave the screens alone but for the titles of the root, passes change nothing
but entities and views, and neither fails for a fault in a screen document. So the model
that a screen document is read into has its root and no other screen. -/

namespace EntitySchema

/-- The failure is a fault in a screen document. -/
def Failure.isScreen : Failure → Bool
  | .screen _ => true
  | _ => false

/-- No failure is a fault in a screen document. -/
def Spares {α : Type} (x : Except Failure α) : Prop := FailsAs (·.isScreen = false) x

/-- The screen but for its titles. -/
def Screen.untitled (s : Screen) : Screen := { s with name := "", label := "" }

/-- The model without its entities and views. -/
def Model.frame (m : Model) : Model := { m with entities := [], views := [] }

namespace Terms

/-- Reading schema documents leaves the screens alone but for the titles of the root. -/
def reading : Terms Draft := .keeping (·.model.screens.untitled) (·.isScreen = false)

def noting : Terms (List Warning) := .keeping (fun _ => ()) (·.isScreen = false)

/-- Passes leave alone what is not about entities or views. -/
def passes : Terms Model := .keeping Model.frame (·.isScreen = false)

end Terms

theorem note_heeds {w : Warning} {noted : List Warning} : Heeds .noting (note w) noted :=
  .modify rfl

namespace Schema

variable {x : Xml.Element} {m : Model} {e : Entity} {noted : List Warning} {d : Draft}

/-! ### Views and methods -/

theorem readView_spares : Spares (readView x) := by
  unfold readView
  refine .bind (.mapError fun _ _ => rfl) fun _ _ =>
    .bind (.mapError fun _ _ => rfl) fun _ _ => ?_
  dsimp only
  refine .guard rfl ?_
  split
  · exact .throw rfl
  · exact .pure

theorem readParameter_spares {method : String} : Spares (readParameter method x) := by
  unfold readParameter
  refine .bind (.mapError fun _ _ => rfl) fun _ _ => .bind (.mapError fun _ _ => rfl) fun _ _ =>
    .bind (.mapError fun _ _ => rfl) fun _ _ => ?_
  split
  · exact .pure
  · exact .throw rfl

theorem readRule_spares {method : String} : Spares (readRule method x) :=
  .bind (.mapError fun _ _ => rfl) fun _ _ => .bind (.mapError fun _ _ => rfl) fun _ _ =>
    .bind (.mapError fun _ _ => rfl) fun _ _ => .bind (.mapError fun _ _ => rfl) fun _ _ => .pure

theorem readQuery_spares {method : String} : Spares (readQuery method x) :=
  .bind (.mapError fun _ _ => rfl) fun _ _ => .bind (.mapError fun _ _ => rfl) fun _ _ =>
    .bind (.mapM fun _ _ => readRule_spares) fun _ _ => .pure

theorem addToMethod_heeds {method : Method} : Heeds .noting (addToMethod method x) noted := by
  unfold addToMethod
  split
  · exact .pure
  · exact .lift_bind readParameter_spares fun _ _ => .guard rfl .pure
  · exact .lift_bind (.mapError fun _ _ => rfl) fun _ _ =>
      .lift_bind (.mapError fun _ _ => rfl) fun _ _ => .pure
  · exact .lift_bind readQuery_spares fun _ _ => .pure
  · exact note_heeds.bind fun _ _ _ => .pure

theorem readMethod_heeds : Heeds .noting (readMethod x) noted :=
  .lift_bind (.mapError fun _ _ => rfl) fun _ _ => .lift_bind (.mapError fun _ _ => rfl) fun _ _ =>
    .foldlM (fun _ _ _ => addToMethod_heeds) _ _ _

/-! ### Entities -/

theorem readFilter_heeds {owner : String} : Heeds .noting (readFilter x owner) noted := by
  unfold readFilter
  split
  · exact .pure
  · split
    · dsimp only
      split
      · exact note_heeds.bind fun _ _ _ => .pure
      · exact .pure
    · exact .throw rfl

theorem addField_heeds : Heeds .noting (addField e x) noted := by
  unfold addField
  refine .lift_bind (.mapError fun _ _ => rfl) fun _ _ =>
    .lift_bind (.mapError fun _ _ => rfl) fun _ _ =>
    .lift_bind (.mapError fun _ _ => rfl) fun _ _ => ?_
  split
  · refine .lift_bind (.mapError fun _ _ => rfl) fun _ _ => readFilter_heeds.bind fun _ _ _ =>
      .guard rfl (.lift_bind (.mapError fun _ _ => rfl) fun _ _ => ?_)
    dsimp only
    split
    · exact .lift (.mapError fun _ _ => rfl)
    · exact .pure
  · exact .throw rfl

theorem addKeyField_spares {name : String} : Spares (addKeyField m e name) := by
  unfold addKeyField
  split
  · exact .pure
  · split
    · exact .throw rfl
    · exact .mapError fun _ _ => rfl

theorem addKey_spares : Spares (addKey m e x) := by
  refine .bind (.mapError fun _ _ => rfl) fun _ _ =>
    .bind (.foldlM (fun _ _ => addKeyField_spares) _ _) fun _ _ =>
    .bind (.mapM fun keyField _ => ?_) fun _ _ => .guard rfl (.mapError fun _ _ => rfl)
  split
  · exact .pure
  · exact .throw rfl

theorem plainEntity_spares {module : Option String} : Spares (plainEntity m x module) :=
  .bind (.mapError fun _ _ => rfl) fun _ _ => .bind (.mapError fun _ _ => rfl) fun _ _ =>
    .bind (.mapError fun _ _ => rfl) fun _ _ => .pure

theorem noteSkipped_heeds {entity : String} : Heeds .noting (noteSkipped x entity) noted := by
  refine .forM (fun child noted => ?_) _ _
  split
  · exact .pure
  · exact note_heeds

theorem readEntity_heeds {module : Option String} : Heeds .noting (readEntity x module m) noted :=
  .lift_bind plainEntity_spares fun _ _ =>
    (Heeds.foldlM (fun _ _ _ => addField_heeds) _ _ _).bind fun _ _ _ =>
    .lift_bind (.foldlM (fun _ _ => addKey_spares) _ _) fun _ _ =>
    .lift_bind (.mapError fun _ _ => rfl) fun _ _ => noteSkipped_heeds.bind fun _ _ _ => .pure

/-! ### Documents -/

section Documents

variable {α : Type}

theorem noting_heeds {work : Model → Noting α} (h : ∀ noted, Heeds .noting (work d.model) noted) :
    Heeds .reading (Reading.noting work) d :=
  Reading.noting_heeds (h d.warnings) (fun _ h => h) fun _ => rfl

theorem addEntity_heeds :
    Heeds .reading (Reading.tryChange fun m => liftM (m.addEntity e)) d := by
  refine Reading.tryChange_heeds (.mapError fun _ _ => rfl) fun m hm => ?_
  obtain ⟨_, rfl⟩ := Model.addEntity_ok (Except.mapError_ok (g := Failure.duplicate) hm)
  rfl

theorem addToModule_heeds {module : Module} : Heeds .reading (addToModule module x) d := by
  unfold addToModule
  split
  · exact (noting_heeds fun _ => readEntity_heeds).bind fun _ _ _ =>
      addEntity_heeds.bind fun _ _ _ => .pure
  · exact .pure
  · exact (noting_heeds fun _ => note_heeds).bind fun _ _ _ => .pure

theorem readModule_heeds : Heeds .reading (readModule x) d :=
  .lift_bind (.mapError fun _ _ => rfl) fun _ _ => .lift_bind (.mapError fun _ _ => rfl) fun _ _ =>
    .get_bind (.guard rfl ((Heeds.foldlM (fun _ _ _ => addToModule_heeds) _ _ _).bind fun _ _ _ =>
      Reading.change_heeds rfl))

theorem addDeclaration_heeds : Heeds .reading (addDeclaration x) d := by
  unfold addDeclaration
  split
  · exact (noting_heeds fun _ => readEntity_heeds).bind fun _ _ _ => addEntity_heeds
  · exact readModule_heeds
  · exact .lift_bind readView_spares fun _ _ => Reading.change_heeds rfl
  · exact (noting_heeds fun _ => readMethod_heeds).bind fun _ _ _ =>
      .get_bind (.guard rfl (Reading.change_heeds rfl))
  · exact Reading.change_heeds rfl
  · exact noting_heeds fun _ => note_heeds

theorem entitle_untitled {root : Xml.Element} :
    (entitle root m).screens.untitled = m.screens.untitled := by
  unfold entitle
  dsimp only
  split <;> split <;> rfl

theorem read_heeds {text : String} : Heeds .reading (read text) d :=
  .lift_bind (.mapError fun _ _ => rfl) fun _ _ =>
    (Reading.change_heeds entitle_untitled).bind fun _ _ _ =>
    .forM (fun _ _ => addDeclaration_heeds) _ _

end Documents

end Schema

/-! ### Passes -/

variable {m m' : Model} {dialect : Dialect} {name : String}

theorem changeEntity_heeds {change : Entity → Entity} :
    Heeds .passes (Pass.change (·.changeEntity name change)) m := Pass.change_heeds rfl

namespace Hierarchy

theorem copyInterfaceKeys_heeds : Heeds .passes (Pass.change (copyInterfaceKeys name)) m := by
  refine Pass.change_heeds ?_
  unfold copyInterfaceKeys
  split <;> rfl

theorem copyParentKey_heeds {parent : String} :
    Heeds .passes (Pass.step (copyParentKey name parent)) m := by
  refine Pass.step_heeds ?_ fun m' hm' => ?_
  · unfold copyParentKey
    split
    · exact .throw rfl
    · exact .pure
  · unfold copyParentKey at hm'
    split at hm' <;> cases hm'
    rfl

theorem propagateKeys_heeds : Heeds .passes propagateKeys m :=
  .bind (Pass.check_heeds (.mapError fun _ _ => rfl)) fun _ m₁ _ => .get_bind <|
    (Heeds.forM (fun _ _ => copyInterfaceKeys_heeds) _ m₁).bind fun _ m₂ _ => .get_bind <|
    .forM (fun _ _ => .get_bind (.forM (fun _ _ => copyParentKey_heeds) _ _)) _ m₂

theorem discriminate_heeds : Heeds .passes (discriminate name) m := by
  unfold discriminate
  refine .get_bind ?_
  split
  · exact .pure
  · dsimp only
    split
    · refine changeEntity_heeds.bind fun _ _ _ => ?_
      split
      · exact .lift_bind (.mapError fun _ _ => rfl) fun _ _ =>
          changeEntity_heeds.bind fun _ _ _ => .pure
      · exact .pure
    · exact .pure

theorem addDiscriminators_heeds : Heeds .passes addDiscriminators m :=
  .get_bind ((Heeds.mapM (fun _ _ => discriminate_heeds) _ _).bind fun _ _ _ => .pure)

theorem addIdentity_heeds : Heeds .passes (Pass.step (addIdentity name)) m := by
  refine Pass.step_heeds ?_ fun m' hm' => ?_
  · unfold addIdentity
    split
    · exact .pure
    · exact .bind (.mapError fun _ _ => rfl) fun _ _ =>
        .bind (.mapError fun _ _ => rfl) fun _ _ => .pure
  · cases hfound : m.entity? name with
    | none =>
      unfold addIdentity at hm'
      rw [hfound] at hm'
      cases hm'
      rfl
    | some root =>
      obtain ⟨_, m₁, _, hadd, rfl⟩ := addIdentity_steps hm' hfound
      obtain ⟨_, rfl⟩ := Model.addEntity_ok hadd
      rfl

theorem addIdentities_heeds : Heeds .passes addIdentities m :=
  .get_bind (.forM (fun _ _ => addIdentity_heeds) _ _)

theorem copyKeyFields_heeds : Heeds .passes copyKeyFields m := by
  refine .get_bind (.forM (fun name m => Pass.step_heeds ?_ fun m' hm' => ?_) _ _)
  · unfold copyKeyFieldsOf
    split
    · exact .pure
    · exact .bind (.mapError fun _ _ => rfl) fun _ _ => .pure
  · rcases copyKeyFieldsOf_ok hm' with ⟨-, rfl⟩ | ⟨_, _, -, -, rfl⟩ <;> rfl

theorem propagateDecorators_frame : (propagateDecorators m).frame = m.frame :=
  List.foldlRecOn (motive := fun m' : Model => m'.frame = m.frame) _ _ rfl fun _ hm' _ _ => hm'

end Hierarchy

theorem Keys.assignLabels_frame (h : Keys.assignLabels m = .ok m') : m'.frame = m.frame := by
  obtain ⟨assigned, _, h⟩ := Except.bind_ok h
  cases h
  refine List.foldlRecOn (motive := fun m' : Model => m'.frame = m.frame) _ _ rfl
    fun m' hm' entry _ => ?_
  rcases entry with ⟨_, _ | _⟩ <;> exact hm'

namespace Link

theorem linkName_spares {taken : List String} {owner field : String} {declared : Option String} :
    Spares (linkName dialect taken owner field declared) := by
  unfold linkName
  split
  · split
    · split
      · exact .throw rfl
      · exact .pure
    · exact .pure
  · split
    · exact .pure
    · exact .throw rfl

theorem complete_spares {taken : List String} {owner field : String} {target : Target}
    {link : Link} : Spares (complete m dialect taken owner field target link) := by
  refine .bind linkName_spares fun name _ => ?_
  -- the target is declared or found, the column for the owner is declared or made up
  simp only [pure_bind]
  repeat' split
  all_goals first | exact .pure | exact .bind (.throw rfl) fun _ h => nomatch h

theorem completeAt_heeds {taken : List String} {place : Nat × Nat} :
    Heeds .passes (completeAt dialect taken place) m := by
  unfold completeAt
  refine .get_bind ?_
  split
  · split
    · split
      · exact .lift_bind complete_spares fun _ _ => (Pass.change_heeds rfl).bind fun _ _ _ => .pure
      · exact .pure
    · exact .pure
  · exact .pure

theorem assignNames_heeds : Heeds .passes (assignNames dialect) m :=
  .get_bind ((Heeds.foldlM (fun _ _ _ => completeAt_heeds) _ _ _).bind fun _ _ _ => .pure)

theorem moveTo_heeds {taken : List String} : Heeds .passes (moveTo dialect taken name) m := by
  unfold moveTo
  refine .get_bind ?_
  split
  · exact .pure
  · split
    · exact .pure
    · exact .lift_bind (.mapError fun _ _ => rfl) fun _ _ =>
        changeEntity_heeds.bind fun _ _ _ => .pure

theorem relocate_heeds : Heeds .passes (relocate dialect) m :=
  .get_bind ((Heeds.foldlM (fun _ _ _ => moveTo_heeds) _ _ _).bind fun _ _ _ =>
    Pass.change_heeds rfl)

theorem make_spares {owner : Entity} {field name : String} {target : Target} {link : Link} :
    Spares (make m dialect owner field target link name) := by
  unfold make
  dsimp only
  split
  · exact .guard rfl (.mapError fun _ _ => rfl)
  · exact .throw rfl

theorem back_heeds {owner : String} {index : Nat} : Heeds .passes (back dialect owner index) m := by
  unfold back
  refine .get_bind ?_
  split
  · split
    · split
      · split
        · split
          · refine .lift_bind (.mapError fun _ _ => rfl)
              fun m' hm' => .bind (.set ?_) fun _ _ _ => .pure
            obtain ⟨_, _, -, -, rfl⟩ := reuse_ok (Except.mapError_ok hm')
            rfl
          · refine .lift_bind make_spares fun _ _ => .lift_bind (.mapError fun _ _ => rfl)
              fun m' hm' => .bind (.set ?_) fun _ _ _ => .pure
            obtain ⟨_, rfl⟩ := Model.addEntity_ok (Except.mapError_ok hm')
            rfl
        · exact .throw rfl
      · exact .pure
    · exact .pure
  · exact .pure

theorem synthesize_heeds : Heeds .passes (synthesize dialect) m := by
  refine .get_bind ((Heeds.mapM (fun owner m => ?_) _ _).bind fun _ _ _ => .pure)
  refine .get_bind ?_
  split
  · split
    · exact .pure
    · exact (Heeds.mapM (fun _ _ => back_heeds) _ _).bind fun _ _ _ => .pure
  · exact .pure

end Link

namespace Reference

theorem resolveEntities_heeds {names : List String} : Heeds .passes (resolveEntities names) m := by
  refine .forM (fun name m => Pass.step_heeds ?_ fun m' hm' => ?_) _ _
  · unfold resolveEntity Model.tryEntity
    split
    · exact .pure
    · exact .bind (.bind (.mapError fun _ _ => rfl) fun _ _ => .pure) fun _ _ => .pure
  · unfold resolveEntity Model.tryEntity at hm'
    split at hm'
    · cases hm'
      rfl
    · obtain ⟨_, _, hm'⟩ := Except.bind_ok hm'
      cases hm'
      rfl

theorem resolveAll_heeds : Heeds .passes resolveAll m := .get_bind resolveEntities_heeds

end Reference

theorem FieldCase.correct_heeds : Heeds .passes FieldCase.correct m :=
  .get_bind (.bind (.set rfl) fun _ _ _ => .lift_bind (.mapError fun _ _ => rfl) fun _ _ =>
    Pass.change_heeds rfl)

namespace Pass

theorem completeNames_heeds : Heeds .passes (completeNames dialect) m :=
  .bind (check_heeds (.mapError fun _ _ => rfl)) fun _ _ _ => Link.assignNames_heeds

theorem completeKeys_heeds {options : Options} : Heeds .passes (completeKeys options) m := by
  have hrest (found : List Warning) (m : Model) : Heeds .passes (do
      check fun m => (Hierarchy.checkOverrides m).mapError .hierarchy
      check fun m => (Keys.check m).mapError .key
      step fun m => (Keys.assignLabels m).mapError .key
      Link.relocate options.dialect
      pure found) m :=
    .bind (check_heeds (.mapError fun _ _ => rfl)) fun _ _ _ =>
    .bind (check_heeds (.mapError fun _ _ => rfl)) fun _ _ _ =>
    .bind (step_heeds (.mapError fun _ _ => rfl) fun _ hm' =>
      Keys.assignLabels_frame (Except.mapError_ok hm')) fun _ _ _ =>
    Link.relocate_heeds.bind fun _ _ _ => .pure
  refine Hierarchy.propagateKeys_heeds.bind fun _ _ _ => ?_
  dsimp only
  split
  · exact Hierarchy.addDiscriminators_heeds.bind fun found m _ => hrest found m
  · exact hrest [] _

theorem completeReferences_heeds : Heeds .passes completeReferences m := by
  refine Reference.resolveAll_heeds.bind fun _ _ _ => FieldCase.correct_heeds.bind fun _ _ _ =>
    Reference.resolveAll_heeds.bind fun _ _ _ =>
    step_heeds (.mapError fun _ _ => rfl) fun m' hm' => ?_
  obtain ⟨_, _, h⟩ := Except.bind_ok (Except.mapError_ok hm')
  cases h
  rfl

theorem completeLinks_heeds : Heeds .passes (completeLinks dialect) m :=
  Link.synthesize_heeds.bind fun _ _ _ => Reference.resolveEntities_heeds

theorem completeTables_heeds {options : Options} : Heeds .passes (completeTables options) m := by
  refine .bind (change_heeds rfl) fun _ _ _ =>
    .bind (change_heeds Hierarchy.propagateDecorators_frame) fun _ _ _ => ?_
  dsimp only
  split
  · exact Hierarchy.addIdentities_heeds.bind fun _ _ _ =>
      Hierarchy.copyKeyFields_heeds.bind fun _ _ _ => check_heeds (.mapError fun _ _ => rfl)
  · exact Hierarchy.copyKeyFields_heeds.bind fun _ _ _ => check_heeds (.mapError fun _ _ => rfl)

/-- A completion changes entities and views, and nothing else of the model. -/
theorem complete_heeds {options : Options} : Heeds .passes (complete options) m :=
  completeNames_heeds.bind fun _ _ _ => completeKeys_heeds.bind fun _ _ _ =>
    completeReferences_heeds.bind fun _ _ _ => completeLinks_heeds.bind fun _ _ _ =>
    completeTables_heeds.bind fun _ _ _ => .pure

end Pass

/-! ### Both together -/

namespace Compilation

variable {options : Options} {schemas : List String} {d : Draft}

theorem readSchemas_heeds : Heeds .reading (readSchemas schemas) d :=
  .forM (fun _ _ => Schema.read_heeds) _ _

theorem completeSchemas_spares : Spares (completeSchemas options schemas) := by
  unfold completeSchemas
  exact .bind readSchemas_heeds.failures fun _ _ => .bind (.mapError fun _ _ => rfl) fun _ _ =>
    .bind Pass.complete_heeds.failures fun _ _ => .pure

theorem authorizeAll_frame {names : List String} (h : authorizeAll names m = .ok m') :
    m'.frame = m.frame := by
  refine Except.foldlM_ok (fun m' : Model => m'.frame = m.frame) (fun name _ m₁ m₂ hstep hm₁ => ?_)
    h rfl
  split at hstep <;> cases hstep
  exact hm₁

theorem declared_bare (h : declared options schemas = .ok m) :
    m.screens.untitled = .rootOf "" := by
  unfold declared at h
  rcases hread : (readSchemas schemas).run { model := .empty } with ⟨outcome, draft⟩
  rw [hread] at h
  obtain ⟨_, rfl, hauthorize⟩ := Except.bind_ok h
  have hframe : m.frame = draft.model.frame :=
    authorizeAll_frame (Except.mapError_ok (g := Failure.reference) hauthorize)
  have hread : draft.model.screens.untitled = .rootOf "" := readSchemas_heeds.of_ends hread
  show m.frame.screens.untitled = _
  rw [hframe]
  exact hread

/-- A completed model has the root of its screens and no other screen. -/
theorem completeSchemas_bare (h : completeSchemas options schemas = .ok d) :
    d.model.screens.untitled = .rootOf "" := by
  obtain ⟨m, warnings, hdeclared, hcomplete⟩ := completeSchemas_steps h
  have hframe : d.model.frame = m.frame := Pass.complete_heeds.of_ends hcomplete
  have hbare := declared_bare hdeclared
  show d.model.frame.screens.untitled = _
  rw [hframe]
  exact hbare

end Compilation

end EntitySchema
