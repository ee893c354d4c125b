import EntitySchema.Proofs.FreeNames
import EntitySchema.Proofs.Naming
import Mathlib.Data.Prod.Lex

/-! The names of links. A name that is made up is none that an entity, a declared link
seen before or a link named before has. Declared links further on are not looked at, so
one of them may have the same name; no other link has. -/

namespace EntitySchema

namespace Link

variable {m m' : Model} {dialect : Dialect} {taken taken' : List String} {place : Nat × Nat}

/-! ### Links in their places -/

/-- The link of the field at a place, if that is many-to-many. -/
def linkAt? (m : Model) (place : Nat × Nat) : Option Link :=
  m.entities[place.1]?.bind fun e => e.fields[place.2]?.bind (·.type.link?)

/-- The name of the link of the field at a place, declared or filled in. -/
def nameAt? (m : Model) (place : Nat × Nat) : Option String := (linkAt? m place).bind (·.name)

theorem nameAt?_eq {link : Link} (h : linkAt? m place = some link) :
    nameAt? m place = link.name := by simp [nameAt?, h]

theorem nameAt?_congr (h : linkAt? m' place = linkAt? m place) :
    nameAt? m' place = nameAt? m place := congrArg (·.bind (·.name)) h

/-- The one place comes before the other in model order. -/
def Before : Nat × Nat → Nat × Nat → Prop := Prod.Lex (· < ·) (· < ·)

theorem Before.asymm {p q : Nat × Nat} (h : Before p q) : ¬Before q p := by
  simp only [Before, Prod.lex_def] at h ⊢
  omega

theorem Before.ne {p q : Nat × Nat} (h : Before p q) : p ≠ q := fun heq => h.asymm (heq ▸ h)

theorem places_ordered (m : Model) : (places m).Pairwise Before := by
  refine List.pairwise_flatMap.mpr ⟨fun ⟨e, i⟩ _ => ?_, ?_⟩
  · rw [List.pairwise_map]
    exact List.pairwise_lt_range.imp fun hlt => Prod.Lex.right _ hlt
  · have hnumbers : (m.entities.zipIdx.map Prod.snd).Pairwise (· < ·) := by
      rw [List.zipIdx_map_snd]
      exact List.pairwise_lt_range'
    refine (List.pairwise_map.mp hnumbers).imp fun hlt p hp q hq => ?_
    obtain ⟨j, -, rfl⟩ := List.mem_map.mp hp
    obtain ⟨k, -, rfl⟩ := List.mem_map.mp hq
    exact Prod.Lex.left _ _ hlt

theorem mem_places {link : Link} (h : linkAt? m place = some link) : place ∈ places m := by
  obtain ⟨e, he, h⟩ := Option.bind_eq_some_iff.mp h
  obtain ⟨f, hf, -⟩ := Option.bind_eq_some_iff.mp h
  obtain ⟨hlt, -⟩ := List.getElem?_eq_some_iff.mp hf
  exact List.mem_flatMap.mpr ⟨(e, place.1), List.mem_zipIdx_iff_getElem?.mpr he,
    List.mem_map.mpr ⟨place.2, List.mem_range.mpr hlt, rfl⟩⟩

theorem linkAt?_eq (m : Model) (place : Nat × Nat) :
    linkAt? m place = (fieldAt? m place).bind (·.type.link?) := by
  unfold linkAt? fieldAt?
  rw [Option.bind_assoc]

/-! ### One round -/

/-- A link keeps the name that it declares; if it declares none, its name is not taken. -/
def Names (taken : List String) (link : Link) (name : String) : Prop :=
  link.name = some name ∨ link.name = none ∧ name ∉ taken

theorem linkName_ok {owner field name : String} {link : Link}
    (h : linkName dialect taken owner field link.name = .ok name) : Names taken link name := by
  unfold linkName at h
  split at h
  · next declared hdeclared =>
    left
    split at h
    · split at h
      · cases h
      · cases h; exact hdeclared
    · cases h; exact hdeclared
  · next hnone =>
    right
    split at h
    · next hfree => cases h; exact ⟨hnone, Identifier.free?_fresh hfree⟩
    · cases h

theorem complete_ok {owner field name : String} {target target' : Target} {link link' : Link}
    (h : complete m dialect taken owner field target link = .ok (target', link', name)) :
    Names taken link name ∧ link'.name = some name := by
  obtain ⟨_, _, hname, -, -, -, -, rfl⟩ := complete_cases h
  exact ⟨linkName_ok hname, rfl⟩

/-- What a round does to the link at its place: a link gets its name, which is taken then;
where no link is, nothing happens. -/
inductive Fills (taken : List String) (place : Nat × Nat) (m : Model) :
    List String → Model → Prop
  | named {link : Link} {name : String} {m' : Model} (at_place : linkAt? m place = some link)
      (names : Names taken link name) (result : nameAt? m' place = some name)
      (others : ∀ other, other ≠ place → linkAt? m' other = linkAt? m other) :
      Fills taken place m (name :: taken) m'
  | skipped (at_place : linkAt? m place = none) : Fills taken place m taken m

theorem Completes.fills (h : Completes dialect taken place m taken' m') :
    Fills taken place m taken' m' := by
  cases h with
  | @filled e f target target' link link' name _ hplace htype hcomplete =>
    obtain ⟨hnames, hname⟩ := complete_ok hcomplete
    refine .named (by rw [linkAt?_eq, hplace, Option.bind_some, htype]; rfl) hnames ?_
      fun other hne => ?_
    · simp [nameAt?, linkAt?_eq, fieldAt?_changeType_self hplace, FieldType.link?, hname]
    · rw [linkAt?_eq, fieldAt?_changeType hne, ← linkAt?_eq]
  | skipped hnone =>
    refine .skipped ?_
    rw [linkAt?_eq]
    cases hf : fieldAt? m place with
    | none => rfl
    | some f =>
      have hmref := hnone f hf
      rcases f with ⟨_, _, type⟩
      cases type <;> first | rfl | cases hmref

/-! ### All rounds -/

/-- The rounds at places that are not repeated: names that were taken are taken still; each
link at one of the places has a name that is taken then, declared or not taken before; what
is at other places, or is no link, is as it was. -/
structure FillsAll (taken : List String) (todo : List (Nat × Nat)) (m : Model)
    (taken' : List String) (m' : Model) : Prop where
  grows : taken ⊆ taken'
  named : ∀ place ∈ todo, ∀ link, linkAt? m place = some link →
    ∃ name ∈ taken', Names taken link name ∧ nameAt? m' place = some name
  others : ∀ place, place ∉ todo ∨ linkAt? m place = none → linkAt? m' place = linkAt? m place

theorem completeAll_fills : ∀ {todo : List (Nat × Nat)} {taken : List String} {m : Model},
    todo.Nodup → Ends (todo.foldlM (completeAt dialect) taken) m taken' m' →
    FillsAll taken todo m taken' m'
  | [], taken, m, _, h => by
    cases h
    exact ⟨List.Subset.refl _, by simp, fun _ _ => rfl⟩
  | place :: todo, taken, m, hnodup, h => by
    obtain ⟨hplace, hnodup⟩ := List.nodup_cons.mp hnodup
    rw [List.foldlM_cons] at h
    obtain ⟨taken₁, m₁, hfirst, h⟩ := h.bind
    have hrest := completeAll_fills hnodup h
    cases (completeAt_cases hfirst).fills with
    | @named link name _ hlink hnames hname hothers =>
      have hsame : nameAt? m' place = some name := by
        rw [← hname, nameAt?_congr (hrest.others place (.inl hplace))]
      refine ⟨fun x hx => hrest.grows (List.mem_cons_of_mem _ hx), fun p hp l hl => ?_,
        fun p hp => ?_⟩
      · by_cases heq : p = place
        · subst heq
          rw [hlink] at hl
          cases hl
          exact ⟨name, hrest.grows List.mem_cons_self, hnames, hsame⟩
        · obtain ⟨name', hmem, hnames', hname'⟩ :=
            hrest.named p (List.mem_of_ne_of_mem heq hp) l (hothers p heq ▸ hl)
          exact ⟨name', hmem, hnames'.imp_right (.imp_right (mt (List.mem_cons_of_mem _))), hname'⟩
      · have hne : p ≠ place := by
          rintro rfl
          simp [hlink] at hp
        rw [hrest.others p (hothers p hne ▸ hp.imp_left (mt (List.mem_cons_of_mem _))),
          hothers p hne]
    | skipped hnone =>
      refine ⟨hrest.grows, fun p hp l hl => ?_, fun p hp => ?_⟩
      · have hne : p ≠ place := by
          rintro rfl
          simp [hnone] at hl
        exact hrest.named p (List.mem_of_ne_of_mem hne hp) l hl
      · exact hrest.others p (hp.imp_left (mt (List.mem_cons_of_mem _)))

/-- Of the names that were taken, a link has then just the one that it declares. -/
theorem FillsAll.nameAt?_iff {todo : List (Nat × Nat)} {name : String}
    (h : FillsAll taken todo m taken' m') (htaken : name ∈ taken) :
    nameAt? m' place = some name ↔ nameAt? m place = some name := by
  by_cases hplace : place ∉ todo ∨ linkAt? m place = none
  · rw [nameAt?_congr (h.others place hplace)]
  · obtain ⟨hmem, hlink⟩ := not_or.mp hplace
    obtain ⟨link, hlink⟩ := Option.ne_none_iff_exists'.mp hlink
    obtain ⟨final, -, hnames, hfinal⟩ := h.named place (not_not.mp hmem) link hlink
    rw [hfinal, nameAt?_eq hlink]
    rcases hnames with hdeclared | ⟨hnone, hfresh⟩
    · rw [hdeclared]
    · have hdiffer : final ≠ name := fun heq => hfresh (heq ▸ htaken)
      simp [hnone, hdiffer]

/-- The name that a link has then is taken. -/
theorem FillsAll.taken_of_mem {todo : List (Nat × Nat)} {name : String}
    (h : FillsAll taken todo m taken' m') (hmem : place ∈ todo)
    (hname : nameAt? m' place = some name) : name ∈ taken' := by
  cases hlink : linkAt? m place with
  | none =>
    rw [nameAt?, h.others place (.inr hlink), hlink] at hname
    cases hname
  | some link =>
    obtain ⟨final, htaken, -, hfinal⟩ := h.named place hmem link hlink
    rw [hfinal] at hname
    cases hname
    exact htaken

/-- The rounds before a place, the one there, and those behind it. -/
theorem assignNames_rounds (h : Ends (assignNames dialect) m () m') (hmem : place ∈ places m) :
    ∃ before after taken₁ m₁ taken₂ m₂ taken₃,
      places m = before ++ place :: after ∧ (∀ p ∈ before, Before p place) ∧
      (∀ p ∈ after, Before place p) ∧
      Ends (before.foldlM (completeAt dialect) m.entityNames) m taken₁ m₁ ∧
      Ends (completeAt dialect taken₁ place) m₁ taken₂ m₂ ∧
      Ends (after.foldlM (completeAt dialect) taken₂) m₂ taken₃ m' := by
  obtain ⟨taken₃, _, hloop, h⟩ := h.get_bind.bind
  obtain ⟨-, rfl⟩ := h.pure
  obtain ⟨before, after, hplaces⟩ := List.append_of_mem hmem
  have hordered := places_ordered m
  rw [hplaces, List.pairwise_append, List.pairwise_cons] at hordered
  obtain ⟨-, ⟨hlater, -⟩, hearlier⟩ := hordered
  rw [hplaces, List.foldlM_append] at hloop
  obtain ⟨taken₁, m₁, hfirst, hloop⟩ := hloop.bind
  rw [List.foldlM_cons] at hloop
  obtain ⟨taken₂, m₂, hround, hrest⟩ := hloop.bind
  exact ⟨before, after, taken₁, m₁, taken₂, m₂, taken₃, hplaces,
    fun p hp => hearlier p hp place List.mem_cons_self, hlater, hfirst, hround, hrest⟩

/-- What those rounds do to links. -/
theorem assignNames_split (h : Ends (assignNames dialect) m () m') (hmem : place ∈ places m) :
    ∃ before after taken₁ m₁ taken₂ m₂ taken₃,
      places m = before ++ place :: after ∧ (∀ p ∈ before, Before p place) ∧
      (∀ p ∈ after, Before place p) ∧ FillsAll m.entityNames before m taken₁ m₁ ∧
      Fills taken₁ place m₁ taken₂ m₂ ∧ FillsAll taken₂ after m₂ taken₃ m' := by
  obtain ⟨before, after, taken₁, m₁, taken₂, m₂, taken₃, hplaces, hearlier, hlater, hfirst,
    hround, hrest⟩ := assignNames_rounds h hmem
  have hnodup : (before ++ place :: after).Nodup := hplaces ▸ (places_ordered m).imp Before.ne
  obtain ⟨hbefore, hafter, -⟩ := List.nodup_append.mp hnodup
  exact ⟨before, after, taken₁, m₁, taken₂, m₂, taken₃, hplaces, hearlier, hlater,
    completeAll_fills hbefore hfirst, (completeAt_cases hround).fills,
    completeAll_fills hafter.of_cons hrest⟩

/-- The name made up for a link is no entity's, and of all other links just those have it
that come later in the model and declare it. -/
theorem generated_fresh {link : Link} (h : Ends (assignNames dialect) m () m')
    (hlink : linkAt? m place = some link) (hnone : link.name = none) :
    ∃ name, nameAt? m' place = some name ∧ name ∉ m.entityNames ∧
      ∀ other, other ≠ place →
        (nameAt? m' other = some name ↔ Before place other ∧ nameAt? m other = some name) := by
  obtain ⟨before, after, taken₁, m₁, taken₂, m₂, taken₃, hplaces, hearlier, hlater, hfirst,
    hround, hrest⟩ := assignNames_split h (mem_places hlink)
  have hlink₁ : linkAt? m₁ place = some link :=
    (hfirst.others place (.inl fun hp => (hearlier place hp).ne rfl)).trans hlink
  cases hround with
  | skipped hnolink => rw [hlink₁] at hnolink; cases hnolink
  | @named link₁ name _ hsome hnames hname hothers =>
    obtain rfl : link = link₁ := Option.some.inj (hlink₁.symm.trans hsome)
    have hnew : name ∉ taken₁ := (hnames.resolve_left (by simp [hnone])).2
    refine ⟨name, (hrest.nameAt?_iff List.mem_cons_self).mpr hname,
      fun hentity => hnew (hfirst.grows hentity), fun other hne => ?_⟩
    rw [hrest.nameAt?_iff List.mem_cons_self, nameAt?_congr (hothers other hne)]
    by_cases hother : other ∈ before
    · exact ⟨fun hsame => absurd (hfirst.taken_of_mem hother hsame) hnew,
        fun ⟨hafter, _⟩ => absurd hafter (hearlier other hother).asymm⟩
    · rw [nameAt?_congr (hfirst.others other (.inl hother))]
      refine ⟨fun hdeclared => ⟨?_, hdeclared⟩, And.right⟩
      obtain ⟨l, hl, -⟩ := Option.bind_eq_some_iff.mp hdeclared
      have hmem := mem_places hl
      rw [hplaces, List.mem_append, List.mem_cons] at hmem
      exact hlater other ((hmem.resolve_left hother).resolve_left hne)

/-- The players of teams, in a link that declares no name, and people with friends, in one
whose name is the one made up for the players. -/
def friends : Model :=
  { Model.empty with entities := [
      { Entity.named "Team" with
        fields := [Field.named "id" .int, Field.named "players" (.mref { entity := "Person" } {})] },
      { Entity.named "Person" with
        fields := [Field.named "id" .int,
          Field.named "friends" (.mref { entity := "Person" } { name := "Team_players" })] }] }

theorem friends_run : Ends (assignNames .generic) friends ()
    ((assignNames .generic).run friends).2 := Prod.ext (by decide +kernel) rfl

theorem friends_named : ∃ m', Ends (assignNames .generic) friends () m' ∧
    linkAt? friends (0, 1) = some {} ∧ ∃ name, nameAt? m' (0, 1) = some name ∧
      name ∉ friends.entityNames ∧ ∀ other, other ≠ (0, 1) →
        (nameAt? m' other = some name ↔ Before (0, 1) other ∧ nameAt? friends other = some name) :=
  ⟨_, friends_run, rfl, generated_fresh friends_run rfl rfl⟩

/-- A name made up for one link can be the name of another, though no two entities share
a name. -/
theorem generated_not_always_fresh : ¬∀ (dialect : Dialect) (m m' : Model),
    m.entityNames.Nodup → Ends (assignNames dialect) m () m' → ∀ place link,
      linkAt? m place = some link → link.name = none → ∃ name, nameAt? m' place = some name ∧
        name ∉ m.entityNames ∧ ∀ other, other ≠ place → nameAt? m' other ≠ some name := by
  intro hfresh
  obtain ⟨name, hname, -, hothers⟩ := hfresh _ _ _ (by decide) friends_run (0, 1) {} rfl rfl
  refine hothers (1, 1) (by decide) (Eq.trans ?_ hname)
  decide +kernel

end Link

end EntitySchema
