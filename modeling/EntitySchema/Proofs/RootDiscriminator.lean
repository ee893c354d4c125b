import EntitySchema.Proofs.Outcome

/-! The discriminator of a hierarchy that is in one table. It is owned by the root. Below
the root a field of its name is there in the end only if it had another letter case when
the discriminators were added, or has come later: from an interface, or for a key. -/

namespace EntitySchema

open Relation (TransGen)
open Entity (Becomes isChange_sameStanding)
open Hierarchy (discriminatorName)

variable {m m' : Model} {options : Options} {warnings : List Warning} {a b name : String}
  {e e' : Entity} {f : Field}

/-! ### Roots -/

namespace Pass.Outcome

variable (hm : m.AsRead) (h : Outcome options m m') (hmapping : options.mapping ≠ .classPerTable)

include hm h hmapping

/-- Without identity roots, parents are those that were declared. -/
theorem extends_back (hab : m'.Extends a b) : m.Extends a b := by
  obtain ⟨e', he', hb⟩ := Model.mem_linksOf.mp hab
  rcases h.fresh e' (Model.entity?_mem he') with ⟨e, he, hbecomes⟩ | ⟨-, hapart⟩
  · have hfound := Model.entity?_of_mem hm.names he
    rw [← hbecomes.name, Model.entity?_name he'] at hfound
    exact Model.mem_linksOf.mpr ⟨e, hfound, hbecomes.parents hmapping ▸ hb⟩
  · rw [hapart.parents] at hb
    cases hb

theorem root_back (hclosed : m.Closed) (hroot : m'.isRoot name = true) : m.isRoot name = true := by
  obtain ⟨e', he', hconcrete, hparents, lower', hlower', hne, hpath⟩ := Model.isRoot_iff.mp hroot
  have hpath : TransGen m.Extends lower'.name name :=
    TransGen.mono (fun _ _ => extends_back hm h hmapping) _ _ hpath
  obtain ⟨c, -, hlast⟩ := TransGen.tail'_iff.mp hpath
  obtain ⟨below, hbelow, hparent⟩ := Model.mem_linksOf.mp hlast
  obtain ⟨e, he⟩ := Model.mem_entityNames.mp
    (hclosed below (Model.entity?_mem hbelow) name (List.mem_append_left _ hparent))
  obtain ⟨found, hfound, hbecomes⟩ := h.becomes e (Model.entity?_mem he)
  rw [Model.entity?_name he, he'] at hfound
  cases hfound
  obtain ⟨c, hfirst, -⟩ := TransGen.head'_iff.mp hpath
  obtain ⟨lower, hlower, -⟩ := Model.mem_linksOf.mp hfirst
  have hname := Model.entity?_name hlower
  exact Model.isRoot_iff.mpr ⟨e, he, hbecomes.isAbstract ▸ hconcrete,
    hbecomes.parents hmapping ▸ hparents, lower, Model.entity?_mem hlower, hname ▸ hne,
    hname ▸ hpath⟩

end Pass.Outcome

theorem Pass.complete_closed (h : Ends (complete options) m warnings m') : m.Closed := by
  obtain ⟨_, _, _, _, hnames, hkeys, -⟩ := complete_steps h
  exact (declared_hierarchy hnames hkeys).2

/-! ### Below the root -/

/-- How an entity below a root has come to own a field of the discriminator's name. -/
inductive Regains (m : Model) (e : Entity) : Prop
  | declared (f : Field) (own : f ∈ e.fields) (other : f.name ≠ discriminatorName)
    (lower : Text.lower f.name = discriminatorName)
  | interfaceKey (name : String) (key : m.InterfaceKey e.name name)
    (other : name ≠ discriminatorName) (lower : Text.lower name = discriminatorName)
  | interfaceLink (name : String) (link : m.InterfaceLink e.name name)
    (lower : Text.lower name = discriminatorName)
  | visibleKey (name : String) (key : m.Keyed e.name name)
    (lower : Text.lower name = discriminatorName)

theorem Entity.Becomes.regains (h : Becomes options m e e') (he : m.entity? e.name = some e)
    (hmapping : options.mapping = .subclassPerTable) (hparents : e.parents ≠ [])
    (hfield : e'.hasField discriminatorName = true) : Regains m e := by
  obtain ⟨f', hf', hname⟩ := List.mem_map.mp (hasField_iff.mp hfield)
  have hreplaced : ∀ {name}, ¬Replaces options m e name → name ≠ discriminatorName :=
    fun hstays htype => hstays ⟨hmapping, .inr hparents, htype⟩
  rcases h.fields f' hf' with ⟨f, hf, hout⟩ | ⟨-, hkey⟩
  · have hlower : Text.lower f.name = discriminatorName :=
      (Field.name_of_outline hout).symm.trans hname
    cases hf with
    | own hown hstays =>
      exact .declared f hown (hreplaced fun h => hstays (.inl h)) hlower
    | interfaceKey _ hkey hstays => exact .interfaceKey f.name hkey (hreplaced hstays) hlower
    | discriminator _ hroot _ =>
      obtain ⟨root, hfound, -, hnone, -⟩ := Model.isRoot_iff.mp hroot
      rw [he] at hfound
      cases hfound
      exact absurd hnone hparents
    | moved _ hlink => exact .interfaceLink f.name hlink hlower
  · obtain ⟨name, hkeyed, hlower⟩ := h.keyed _ hkey
    rw [hname, Hierarchy.lower_discriminatorName] at hlower
    exact .visibleKey name hkeyed hlower

/-! ### Compiled models -/

/-- With a table for each subclass, every root owns the discriminator after a compilation,
and an entity with parents owns a field of its name only as `Regains` says. -/
theorem compiled_discriminator_placed {library : Screens.Library} {schemas : List String}
    {screens : Option String} {c : Compiled} (hmapping : options.mapping = .subclassPerTable)
    (h : Compilation.compile options library schemas screens = .ok c) :
    ∃ m, Compilation.declared options schemas = .ok m ∧
      (∀ e ∈ c.model.entities, e.isAbstract = false → e.parents = [] →
        c.model.descendants e.name ≠ [] →
        ∃ f ∈ e.fields, f.name = discriminatorName ∧ f.origin = .discriminator) ∧
      ∀ e' ∈ c.model.entities, e'.parents ≠ [] → e'.hasField discriminatorName = true →
        ∃ e ∈ m.entities, e.name = e'.name ∧ Regains m e := by
  obtain ⟨m, m', warnings, hdeclared, hcomplete, heq, -⟩ := Compilation.compile_declared h
  have hm := Compilation.declared_asRead hdeclared
  have houtcome := Pass.complete_outcome hm hcomplete
  have hidentity : options.mapping ≠ .classPerTable := by rw [hmapping]; decide
  refine ⟨m, hdeclared, fun e' he' hconcrete hparents hbelow => ?_, fun e' he' hparents htype => ?_⟩
  · have hnodup : c.model.entityNames.Nodup := by
      rw [Model.entityNames, heq]
      exact (Pass.complete_sound hm.sound hcomplete).1.names
    have hroot : c.model.isRoot e'.name = true := by
      unfold Model.isRoot
      rw [Model.entity?_of_mem hnodup he']
      simp [hconcrete, hparents, hbelow]
    rw [Model.isRoot_standing (.of_eq isChange_sameStanding heq)] at hroot
    have hroot := houtcome.root_back hm hidentity (Pass.complete_closed hcomplete) hroot
    rcases houtcome.fresh e' (heq ▸ he') with ⟨e, he, hbecomes⟩ | ⟨hnew, -⟩
    · exact hbecomes.root hmapping (hbecomes.name ▸ hroot)
    · obtain ⟨e, he, -⟩ := Model.isRoot_iff.mp hroot
      exact absurd (Model.mem_entityNames.mpr ⟨e, he⟩) hnew
  · rcases houtcome.fresh e' (heq ▸ he') with ⟨e, he, hbecomes⟩ | ⟨-, hapart⟩
    · refine ⟨e, he, hbecomes.name.symm, hbecomes.regains (Model.entity?_of_mem hm.names he)
        hmapping ?_ htype⟩
      rwa [← hbecomes.parents hidentity]
    · exact absurd hapart.parents hparents

/-- Players are persons of a type, which is written with a capital letter. -/
def typedPlayers : String :=
  "<m><entity name='Person'><field name='id' type='autoid'/></entity>" ++
  "<entity name='Player' extends='Person'><field name='Type' type='string'/></entity></m>"

theorem typedPlayers_compiled :
    ∃ c, Compilation.compile {} Screens.noLibrary [typedPlayers] none = .ok c ∧
      (∃ e ∈ c.model.entities, e.isAbstract = false ∧ e.parents = [] ∧
        c.model.descendants e.name ≠ []) ∧
      ∃ e ∈ c.model.entities, e.parents ≠ [] ∧ e.hasField discriminatorName = true := by
  have hrun : (Compilation.compile {} Screens.noLibrary [typedPlayers] none).toOption.any
      (fun c => (∃ e ∈ c.model.entities, e.isAbstract = false ∧ e.parents = [] ∧
        c.model.descendants e.name ≠ []) ∧
      ∃ e ∈ c.model.entities, e.parents ≠ [] ∧ e.hasField discriminatorName = true) = true := by
    decide +kernel
  obtain ⟨c, hc, hpersons⟩ := Except.exists_ok_and hrun
  exact ⟨c, hc, of_decide_eq_true hpersons⟩

theorem typedPlayers_regain :
    ∃ c, Compilation.compile {} Screens.noLibrary [typedPlayers] none = .ok c ∧
      (∃ e ∈ c.model.entities, ∃ f ∈ e.fields,
        f.name = discriminatorName ∧ f.origin = .discriminator) ∧
      ∃ m, Compilation.declared {} [typedPlayers] = .ok m ∧
        ∃ e ∈ m.entities, ∃ e' ∈ c.model.entities, e.name = e'.name ∧ Regains m e := by
  obtain ⟨c, hc, ⟨root, hmem, hconcrete, hnone, hbelow⟩, e', he', hparents, htype⟩ :=
    typedPlayers_compiled
  obtain ⟨m, hm, hroots, hregains⟩ := compiled_discriminator_placed rfl hc
  obtain ⟨e, he, hname, hregained⟩ := hregains e' he' hparents htype
  exact ⟨c, hc, ⟨root, hmem, hroots root hmem hconcrete hnone hbelow⟩, m, hm, e, he, e', he',
    hname, hregained⟩

theorem compiled_discriminator_not_only_on_roots :
    ¬∀ (options : Options) (library : Screens.Library) (schemas : List String)
      (screens : Option String) (c : Compiled), options.mapping = .subclassPerTable →
      Compilation.compile options library schemas screens = .ok c →
      (∀ e ∈ c.model.entities, e.isAbstract = false → e.parents = [] →
        c.model.descendants e.name ≠ [] →
        ∃ f ∈ e.fields, f.name = discriminatorName ∧ f.origin = .discriminator) ∧
      ∀ e ∈ c.model.entities, e.parents ≠ [] → e.hasField discriminatorName = false := by
  intro hall
  obtain ⟨c, hc, -, e, he, hparents, htype⟩ := typedPlayers_compiled
  have hnone := (hall _ _ _ _ c rfl hc).2 e he hparents
  rw [htype] at hnone
  cases hnone

end EntitySchema
