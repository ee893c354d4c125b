import EntitySchema.Proofs.Chains
import EntitySchema.Proofs.LinkNames
import EntitySchema.Proofs.LinkRounds
import EntitySchema.Proofs.TakenFields
import EntitySchema.Proofs.TopDown
import Mathlib.Logic.Function.Basic

/-! Fields that move, one entity after the other. Each entity with a table gets its copies
in its turn, with links of names that nothing had before; no other turn touches it. What
moved is found before anything that is farther away, so a name that stood for a
many-to-many field stands for one still. -/

namespace EntitySchema

open Relation (ReflTransGen)

variable {m m' : Model} {name : String} {e e' : Entity} {f g : Field} {dialect : Dialect}
  {taken taken' taken₁ : List String}

/-! ### Names of links -/

namespace Link

/-- The links of the fields have names of their own that were not taken, and then are. -/
def NamedAnew (taken : List String) (fields : List Field) (taken' : List String) : Prop :=
  ∃ names : List String, fields.map Field.linkName? = names.map some ∧ names.Nodup ∧ names.Disjoint taken ∧
    ∀ name, name ∈ taken' ↔ name ∈ names ∨ name ∈ taken

theorem NamedAnew.nil (taken : List String) : NamedAnew taken [] taken :=
  ⟨[], rfl, .nil, by simp, by simp⟩

theorem NamedAnew.single (hname : f.linkName? = some name) (hnew : name ∉ taken) :
    NamedAnew taken [f] (name :: taken) :=
  ⟨[name], by simp [hname], List.nodup_singleton _, by simpa using hnew, by simp⟩

theorem NamedAnew.append {before after : List Field} (h : NamedAnew taken before taken₁)
    (h' : NamedAnew taken₁ after taken') : NamedAnew taken (before ++ after) taken' := by
  obtain ⟨names, hnames, hnodup, hdisjoint, htaken⟩ := h
  obtain ⟨names', hnames', hnodup', hdisjoint', htaken'⟩ := h'
  have hold : ∀ {name}, name ∈ names' → name ∉ names ∧ name ∉ taken := fun hmem => by
    have hnot := hdisjoint' hmem
    rwa [imp_false, htaken, not_or] at hnot
  refine ⟨names ++ names', by rw [List.map_append, List.map_append, hnames, hnames'],
    hnodup.append hnodup' fun name hmem hmem' => (hold hmem').1 hmem,
    List.disjoint_append_left.mpr ⟨hdisjoint, fun name hmem => (hold hmem).2⟩, fun name => ?_⟩
  rw [htaken', htaken, List.mem_append]
  tauto

theorem move_named {moved moved' : Moved} (h : move dialect e moved f = .ok moved')
    (hmoved : NamedAnew taken moved.copies moved.taken) :
    NamedAnew taken moved'.copies moved'.taken := by
  rcases move_cases h with ⟨rfl, -⟩ | ⟨_, _, name, -, -, hfree, rfl⟩
  · exact hmoved
  · exact hmoved.append (.single rfl (Identifier.free?_fresh hfree))

theorem moveAll_named {moved : Moved} (h : moveAll m dialect e taken = .ok moved) :
    NamedAnew taken moved.copies moved.taken :=
  Except.foldlM_ok (fun moved : Moved => NamedAnew taken moved.copies moved.taken)
    (fun _ _ _ _ => move_named) h (.nil taken)

/-! ### One turn after the other -/

/-- The model in which entities have these fields behind their own. -/
def receiving (moved : String → List Field) (m : Model) : Model :=
  { m with entities := m.entities.map fun e => receive (moved e.name) e }

theorem receiving_names (moved : String → List Field) (m : Model) :
    (receiving moved m).entityNames = m.entityNames := by
  unfold Model.entityNames receiving
  rw [List.map_map]
  rfl

theorem receiving_entity? (moved : String → List Field) (he : m.entity? name = some e) :
    (receiving moved m).entity? name = some (receive (moved name) e) := by
  obtain rfl := Model.entity?_name he
  unfold Model.entity? at he ⊢
  rw [receiving, List.find?_map]
  exact congrArg (Option.map fun e => receive (moved e.name) e) he

theorem receiving_change {moved : String → List Field} {copies : List Field}
    (hnodup : m.entityNames.Nodup) (hnone : moved name = []) :
    (receiving moved m).changeEntity name (receive copies) =
      receiving (Function.update moved name copies) m := by
  rw [Model.changeEntity_map (by rwa [receiving_names]), receiving, List.map_map, receiving]
  refine congrArg (fun entities => { m with entities }) (List.map_congr_left fun e _ => ?_)
  by_cases he : e.name = name
  · subst he
    simp [receive, hnone]
  · simp [receive, he]

/-- What the turns move: nothing to entities without tables, and fields whose links have
names of their own. -/
structure Distributes (m : Model) (todo taken : List String) (moved : String → List Field)
    (taken' : List String) : Prop where
  areMoved : ∀ name ∈ todo, ∀ f ∈ moved name, f.IsMoved
  abstract : ∀ name ∈ todo, ∀ e, m.entity? name = some e → e.isAbstract = true → moved name = []
  named : NamedAnew taken (todo.flatMap moved) taken'

theorem Distributes.cons {moved : String → List Field} {rest : List String}
    (hmoved : ∀ f ∈ moved name, f.IsMoved)
    (habstract : ∀ e, m.entity? name = some e → e.isAbstract = true → moved name = [])
    (hnamed : NamedAnew taken (moved name) taken₁) (hrest : Distributes m rest taken₁ moved taken') :
    Distributes m (name :: rest) taken moved taken' where
  areMoved := List.forall_mem_cons.mpr ⟨hmoved, hrest.areMoved⟩
  abstract := List.forall_mem_cons.mpr ⟨habstract, hrest.abstract⟩
  named := hnamed.append hrest.named

theorem moveEachTo_run (hnodup : m.entityNames.Nodup) : ∀ {todo taken : List String}
    {moved : String → List Field}, todo.Nodup → (∀ name ∈ todo, moved name = []) →
    Ends (todo.foldlM (moveTo dialect) taken) (receiving moved m) taken' m' →
    ∃ moved', m' = receiving moved' m ∧ (∀ name ∉ todo, moved' name = moved name) ∧
      Distributes m todo taken moved' taken'
  | [], taken, moved, _, _, h => by
    cases h
    exact ⟨moved, rfl, fun _ _ => rfl, ⟨by simp, by simp, .nil _⟩⟩
  | name :: rest, taken, moved, hturns, hnone, h => by
    obtain ⟨hname, hturns⟩ := List.nodup_cons.mp hturns
    obtain ⟨hfirst, hnone⟩ := List.forall_mem_cons.mp hnone
    rw [List.foldlM_cons] at h
    obtain ⟨taken₁, m₁, hstep, hends⟩ := h.bind
    rcases moveTo_cases hstep with ⟨rfl, rfl, habstract⟩ | ⟨x, copies, hx, hconcrete, hmoved, rfl, rfl⟩
    · obtain ⟨moved', rfl, hothers, hrest⟩ := moveEachTo_run hnodup hturns hnone hends
      have hsame : moved' name = [] := (hothers name hname).trans hfirst
      refine ⟨moved', rfl, fun other hother => hothers other (List.mem_cons.not.mp hother ∘ .inr),
        .cons (by simp [hsame]) (fun _ _ _ => hsame) (hsame ▸ .nil taken₁) hrest⟩
    · rw [receiving_change hnodup hfirst] at hends
      have hupdate : ∀ other ≠ name,
          Function.update moved name copies.copies other = moved other :=
        fun other hne => Function.update_of_ne hne _ _
      obtain ⟨moved', rfl, hothers, hrest⟩ := moveEachTo_run hnodup hturns
        (fun other hmem => (hupdate other fun heq => hname (heq ▸ hmem)).trans (hnone other hmem)) hends
      have hcopies : moved' name = copies.copies :=
        (hothers name hname).trans (Function.update_self name _ _)
      refine ⟨moved', rfl, fun other hother => ?_, .cons ?_ ?_ ?_ hrest⟩
      · obtain ⟨hne, hother⟩ := not_or.mp (List.mem_cons.not.mp hother)
        exact (hothers other hother).trans (hupdate other hne)
      · intro f hf
        obtain ⟨_, _, _, _, target, link, rfl⟩ := moveAll_moved hmoved f (hcopies ▸ hf)
        exact ⟨rfl, rfl⟩
      · intro e he habstract
        rw [receiving_entity? moved he] at hx
        cases hx
        rw [show (receive (moved name) e).isAbstract = e.isAbstract from rfl, habstract] at hconcrete
        cases hconcrete
      · exact hcopies ▸ moveAll_named hmoved

/-- An entity after relocation: an abstract one has no many-to-many fields, and others have
what moved behind their own. -/
def relocated (moved : List Field) (e : Entity) : Entity :=
  if e.isAbstract = true then { e with fields := e.fields.filter (!·.isMref) }
  else { e with fields := e.fields ++ moved }

theorem relocate_run (hnodup : m.entityNames.Nodup) (h : Ends (relocate dialect) m () m') :
    ∃ moved taken', m' = { m with entities := m.entities.map fun e => relocated (moved e.name) e } ∧
      Distributes m m.entityNames (takenNames m) moved taken' := by
  obtain ⟨taken', s, hloop, hstrip⟩ := h.get_bind.bind
  obtain rfl := Pass.change_ends hstrip
  have hstart : receiving (fun _ => []) m = m := by
    have hsame : m.entities.map (fun e => receive [] e) = m.entities :=
      (List.map_congr_left fun e _ => by simp [receive]).trans (List.map_id _)
    rw [receiving, hsame]
  rw [← hstart] at hloop
  obtain ⟨moved, rfl, -, hmoved⟩ := moveEachTo_run hnodup (receiving_names _ m ▸ hnodup)
    (fun _ _ => rfl) hloop
  rw [hstart] at hmoved
  refine ⟨moved, taken', ?_, hmoved⟩
  rw [stripInterfaces, receiving, List.map_map]
  refine congrArg (fun entities => { m with entities }) (List.map_congr_left fun e he => ?_)
  by_cases habstract : e.isAbstract = true
  · have hnone := hmoved.abstract e.name (List.mem_map_of_mem he) e
      (Model.entity?_of_mem hnodup he) habstract
    simp [relocated, receive, habstract, hnone]
  · simp [relocated, receive, habstract]

/-! ### What is seen -/

/-- What is seen after relocation was seen before: an entity that a field moved to has the
interface that it moved from. -/
theorem relocate_sees_back {field : String} (hm : m.Layered) (h : Ends (relocate dialect) m () m')
    (hsees : m'.Sees name field) : m.Sees name field := by
  obtain ⟨x', hx', f, hf, rfl⟩ := Model.sees_iff.mp hsees
  obtain ⟨x, hx, -, hreceives⟩ := Model.mem_lineage_change_back (Entity.isChange_receives m)
    (fun _ _ h => h.toSameStanding) (relocate_receives hm h) hx'
  rcases hreceives.received f hf with hf | ⟨i, hi, g, hg, -, hname⟩
  · exact Model.sees_iff.mpr ⟨x, hx, f, hf, rfl⟩
  · obtain ⟨hi, -, hpath⟩ := Model.mem_ownInterfaces.mp hi
    have hinterface : i ∈ m.lineage x.name :=
      Model.mem_lineage.mpr ⟨hi, x.name, .refl, hpath.to_reflTransGen⟩
    exact Model.Sees.inherits hm (Model.mem_lineage.mp hx).2
      (Model.sees_iff.mpr ⟨i, hinterface, g, hg, hname⟩)

/-- The first field of the name in a chain where some moved is one of those, or the first one
that was there. -/
theorem findSome?_relocated {moved : String → List Field} {field : String} :
    ∀ {es : List Entity}, (∀ e ∈ es, e.isAbstract = false ∧ ∀ f ∈ moved e.name, f.isMref = true) →
      (es.map fun e => relocated (moved e.name) e).findSome?
        (fun e => e.fields.reverse.find? (·.name = field)) = some g →
      g.isMref = true ∨
        es.findSome? (fun e => e.fields.reverse.find? (·.name = field)) = some g
  | [], _, hg => by cases hg
  | e :: rest, hes, hg => by
    obtain ⟨⟨hconcrete, hmoved⟩, hrest⟩ := List.forall_mem_cons.mp hes
    have hfields : (relocated (moved e.name) e).fields = e.fields ++ moved e.name := by
      rw [relocated, if_neg (by simp [hconcrete])]
    rw [List.map_cons, List.findSome?_cons, hfields, List.reverse_append, List.find?_append] at hg
    rw [List.findSome?_cons]
    cases hcopy : (moved e.name).reverse.find? (·.name = field) with
    | some f =>
      rw [hcopy] at hg
      cases hg
      exact .inl (hmoved g (List.mem_reverse.mp (List.mem_of_find?_eq_some hcopy)))
    | none =>
      rw [hcopy, Option.none_or] at hg
      cases hown : e.fields.reverse.find? (·.name = field) with
      | some f =>
        rw [hown] at hg
        exact .inr hg
      | none =>
        rw [hown] at hg
        exact findSome?_relocated hrest hg

/-- The chain of an entity with a table consists of entities with tables, which have what moved
to them behind their own fields. -/
theorem relocate_chain (hm : m.Layered) (hnodup : m.entityNames.Nodup)
    (h : Ends (relocate dialect) m () m') (he : m.entity? name = some e)
    (hconcrete : e.isAbstract = false) : ∃ moved : String → List Field,
      (∀ x ∈ m.chain name, x.isAbstract = false ∧ ∀ f ∈ moved x.name, f.isMref = true) ∧
      m'.chain name = (m.chain name).map fun e => relocated (moved e.name) e := by
  obtain ⟨moved, taken', rfl, hmoved⟩ := relocate_run hnodup h
  refine ⟨moved, fun x hx => ?_, Model.chain_map rfl (fun e => ?_) (Model.mem_entityNames.mpr ⟨e, he⟩)⟩
  · obtain ⟨hx, hpath⟩ := Model.mem_chain.mp hx
    obtain ⟨x', hx', hxconcrete⟩ := hm.concrete_of_extends hpath ⟨e, he, hconcrete⟩
    rw [hx] at hx'
    cases hx'
    exact ⟨hxconcrete, fun f hf =>
      (hmoved.areMoved x.name (Model.mem_entityNames.mpr ⟨x, hx⟩) f hf).1⟩
  · unfold relocated
    split <;> exact ⟨rfl, rfl⟩

/-- The chain has a field under every name that stood for a many-to-many field: those of
interfaces moved to it. -/
theorem relocate_chained (hm : m.Layered) (hnodup : m.entityNames.Nodup)
    (h : Ends (relocate dialect) m () m') (he : m.entity? name = some e)
    (hconcrete : e.isAbstract = false) (hf : f ∈ m.allFields name) (hmref : f.isMref = true) :
    ∃ x ∈ m'.chain name, ∃ g ∈ x.fields, g.name = f.name := by
  obtain ⟨i, hlineage, hown⟩ := Model.mem_allFields hf
  have hi := hlineage
  rw [Model.lineage_eq, List.mem_append, List.mem_reverse] at hi
  rcases hi with hi | hi
  · obtain ⟨hfound, -, c, -, hpath⟩ := Model.mem_interfaces.mp hi
    obtain ⟨i', hi', habstract⟩ := hm.interface_of_path hpath
    rw [hfound] at hi'
    cases hi'
    obtain ⟨x, -, hpath, x', hx', g, hg, hsame⟩ :=
      relocate_taken hm h he hconcrete hlineage habstract hown hmref
    have hstanding := (relocate_relocates h).mono fun _ _ h => h.toSameStanding
    refine ⟨x', Model.mem_chain.mpr ⟨Model.entity?_self hx', ?_⟩, g, hg, hsame⟩
    rwa [Model.extends_standing hstanding, Model.entity?_name hx']
  · obtain ⟨moved, hconcretes, hchain⟩ := relocate_chain hm hnodup h he hconcrete
    refine ⟨relocated (moved i.name) i, hchain ▸ List.mem_map_of_mem hi, f, ?_, rfl⟩
    rw [relocated, if_neg (by simp [(hconcretes i hi).1])]
    exact List.mem_append_left _ hown

/-- A name that stood for a many-to-many field stands for one still. -/
theorem relocate_links (hm : m.Layered) (hnodup : m.entityNames.Nodup)
    (h : Ends (relocate dialect) m () m') (he : m.entity? name = some e)
    (hconcrete : e.isAbstract = false) (hf : f ∈ m.allFields name) (hmref : f.isMref = true) :
    ∃ f' ∈ m'.allFields name, f'.name = f.name ∧ f'.isMref = true := by
  obtain ⟨moved, hconcretes, hchain⟩ := relocate_chain hm hnodup h he hconcrete
  obtain ⟨x, hx, g, hg, hname⟩ := relocate_chained hm hnodup h he hconcrete hf hmref
  -- the chain decides what is seen, and its first field of the name moved or was first before
  obtain ⟨f', hfirst⟩ : ∃ f', (m'.chain name).findSome?
      (fun e => e.fields.reverse.find? (·.name = f.name)) = some f' := by
    rw [← Option.isSome_iff_exists, List.findSome?_isSome_iff]
    exact ⟨x, hx, List.find?_isSome.mpr ⟨g, List.mem_reverse.mpr hg, by simpa using hname⟩⟩
  have hseen' : m'.visibleField? name f.name = some f' := by
    rw [Model.visibleField?_first, hfirst]
    rfl
  have hseen := Model.visibleField?_of_mem hf
  rw [Model.visibleField?_first] at hseen
  refine ⟨f', List.mem_of_find?_eq_some hseen', by simpa using List.find?_some hseen', ?_⟩
  rw [hchain] at hfirst
  rcases findSome?_relocated hconcretes hfirst with hmref' | hsame
  · exact hmref'
  · rw [hsame] at hseen
    cases hseen
    exact hmref

end Link

open Link (relocate)

/-- Relocation loses nothing visible. When it succeeds on a checked hierarchy with distinct entity
names, abstract entities have lost their many-to-many fields, and no more; others keep their
fields in order, and behind them have fields that moved, whose links have names that differ
from each other, from the names of entities and from those of all links there were. Whoever
has a table sees fields of the same names as before, and a many-to-many field under each name
under which there was one. -/
theorem relocate_conservative (hcheck : Hierarchy.check m = .ok ()) (hnodup : m.entityNames.Nodup)
    (h : Ends (relocate dialect) m () m') :
    (∃ moved : String → List Field,
      m' = { m with entities := m.entities.map fun e =>
        if e.isAbstract = true then { e with fields := e.fields.filter (!·.isMref) }
        else { e with fields := e.fields ++ moved e.name } } ∧
      (∀ e ∈ m.entities, ∀ f ∈ moved e.name, f.origin = .interfaceMref) ∧
      ∃ names : List String,
        (m.entities.flatMap fun e => moved e.name).map Field.linkName? = names.map some ∧
        names.Nodup ∧ ∀ name ∈ names, name ∉ m.entityNames ∧
          ∀ e ∈ m.entities, ∀ f ∈ e.fields, f.linkName? ≠ some name) ∧
    (∀ e ∈ m'.entities, e.isAbstract = true → ∀ f ∈ e.fields, f.isMref = false) ∧
    ∀ e ∈ m.entities, e.isAbstract = false →
      (∀ field, m'.Sees e.name field ↔ m.Sees e.name field) ∧
      ∀ f ∈ m.allFields e.name, f.isMref = true →
        ∃ f' ∈ m'.allFields e.name, f'.name = f.name ∧ f'.isMref = true := by
  have hm := Model.checked_of_check hcheck
  refine ⟨?_, fun e he => Link.relocate_stripped h he, fun e he hconcrete => ⟨fun field => ⟨?_, ?_⟩,
    fun f hf => ?_⟩⟩
  · obtain ⟨moved, taken', hm', hmoved⟩ := Link.relocate_run hnodup h
    obtain ⟨names, hnames, hdistinct, hdisjoint, -⟩ := hmoved.named
    refine ⟨moved, hm', fun e he f hf => ?_, names, ?_, hdistinct, fun name hname => ?_⟩
    · exact (hmoved.areMoved e.name (List.mem_map_of_mem he) f hf).2
    · rw [← hnames, Model.entityNames, List.flatMap_map]
    · have hnew := List.disjoint_left.mp hdisjoint hname
      rw [Link.takenNames, List.mem_append, not_or] at hnew
      refine ⟨hnew.1, fun e he f hf hlink => hnew.2 ?_⟩
      exact List.mem_filterMap.mpr ⟨f, List.mem_flatMap.mpr ⟨e, he, hf⟩, hlink⟩
  · exact Link.relocate_sees_back hm.layered h
  · exact Link.relocate_sees hm.layered h (Model.entity?_of_mem hnodup he) hconcrete
  · exact Link.relocate_links hm.layered hnodup h (Model.entity?_of_mem hnodup he) hconcrete hf

/-- A novel is a book and tagged; what is noted is tagged, and the names of two links are in
use. -/
def shelf : Model :=
  { Model.empty with entities := [
      { Entity.named "Novel" with parents := ["Book"], implements := ["Tagged"] },
      { Entity.named "Book" with implements := ["Noted"], fields := [Field.named "id" .int] },
      { Entity.named "Noted" with
        isAbstract := true
        implements := ["Tagged"]
        fields := [Field.named "notes" (.mref { entity := "Note" } {}), Field.named "since" .date] },
      { Entity.named "Tagged" with
        isAbstract := true, fields := [Field.named "tags" (.mref { entity := "Tag" } {})] },
      { Entity.named "Book_notes" with
        fields := [Field.named "tags" (.mref { entity := "Tag" } { name := some "Novel_tags" })] }] }

/-- Books take over the tags of what is noted, and novels see the notes of books. -/
theorem shelf_relocated : Hierarchy.check shelf = .ok () ∧ shelf.entityNames.Nodup ∧
    ∃ m', Ends (relocate .generic) shelf () m' ∧
      m'.entities.map (fun e => (e.name, e.fields.map fun f => (f.name, f.linkName?))) =
        [("Novel", [("tags", some "Novel_tags_mref")]),
          ("Book", [("id", none), ("notes", some "Book_notes_mref"), ("tags", some "Book_tags")]),
          ("Noted", [("since", none)]), ("Tagged", []),
          ("Book_notes", [("tags", some "Novel_tags")])] ∧
      (∀ field, m'.Sees "Novel" field ↔ shelf.Sees "Novel" field) ∧
      ∃ f ∈ m'.allFields "Novel", f.name = "notes" ∧ f.isMref = true := by
  have hcheck : Hierarchy.check shelf = .ok () := by decide +kernel
  have hnodup : shelf.entityNames.Nodup := by decide
  have hrun : ((relocate .generic).run shelf).1.toBool = true ∧
      ((relocate .generic).run shelf).2.entities.map
        (fun e => (e.name, e.fields.map fun f => (f.name, f.linkName?))) =
        [("Novel", [("tags", some "Novel_tags_mref")]),
          ("Book", [("id", none), ("notes", some "Book_notes_mref"), ("tags", some "Book_tags")]),
          ("Noted", [("since", none)]), ("Tagged", []),
          ("Book_notes", [("tags", some "Novel_tags")])] := by
    decide +kernel
  obtain ⟨hok, hentities⟩ := hrun
  obtain ⟨_, hok⟩ := Except.exists_ok hok
  have hends : Ends (relocate .generic) shelf () ((relocate .generic).run shelf).2 :=
    Prod.ext hok rfl
  obtain ⟨-, -, hvisible⟩ := relocate_conservative hcheck hnodup hends
  obtain ⟨hsees, hlinks⟩ := hvisible _ List.mem_cons_self rfl
  obtain ⟨f, hf, hname, hmref⟩ : ∃ f ∈ shelf.allFields "Novel", f.name = "notes" ∧
      f.isMref = true := by decide +kernel
  obtain ⟨f', hf', hname', hmref'⟩ := hlinks f hf hmref
  exact ⟨hcheck, hnodup, _, hends, hentities, hsees, f', hf', hname'.trans hname, hmref'⟩

end EntitySchema
