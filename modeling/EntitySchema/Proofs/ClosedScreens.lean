import EntitySchema.Proofs.BareScreens
import EntitySchema.Proofs.ScreenReading
import EntitySchema.Proofs.SteadyLabels

/-! Closed screens of compiled models. Until its screen document is read, a model has the
root of its screens and no other screen, and reading adds closed screens only. So the check
that follows finds every field that a form hides. -/

namespace EntitySchema

variable {m : Model} {s : Screen}

theorem Failure.isScreen_of_isUnknownHidden {e : Failure} (h : e.isUnknownHidden = true) :
    e.isScreen = true := by
  cases e <;> first | rfl | cases h

namespace Screens

/-! ### Checking -/

section Checking

variable {library : Library}

/-- The names of screens that pass the check have no white space in them. -/
theorem check_names {warnings : List Warning} (h : check m = .ok warnings) :
    ∀ s ∈ m.screens.inner, Text.hasSpace s.name = false := by
  intro s hs
  obtain ⟨found, hfound, _⟩ := Except.bind_ok h
  obtain ⟨_, _, hchecked⟩ := exists_of_forall₂_left (Except.mapM_ok hfound) hs
  simpa using (Except.guard_ok hchecked).1

/-- A field that is visible under just this name is found. -/
theorem checkHidden_fails {screen name : String} {form : Form} (h : m.Sees form.entity name) :
    NoUnknownHidden (checkHidden m screen form name) := by
  obtain ⟨f, hf, -⟩ := Reference.visibleFieldIgnoringCase?_of_sees h
  intro fault hfault
  unfold checkHidden at hfault
  rw [hf] at hfault
  dsimp only at hfault
  split at hfault <;> cases hfault

theorem checkScreen_fails (hs : s.ClosedOver m) : NoUnknownHidden (checkScreen m s) := by
  unfold checkScreen
  refine .guard rfl ?_
  split
  · next form hform =>
    split
    · exact .pure
    · refine .bind (.mapM fun name hname => checkHidden_fails ?_) fun _ _ => .pure
      have hkind := hs.kind
      unfold Screen.form? at hform
      split at hform <;> cases hform
      next hform =>
        rw [hform] at hkind
        exact hkind.hidden name hname
  · exact .pure

/-- The check of closed screens finds every field that they hide. -/
theorem check_fails (hm : m.ScreensClosed) : NoUnknownHidden (check m) := by
  refine .bind (.mapM fun s hs => checkScreen_fails (hm s ?_)) fun _ _ => .pure
  rw [Screen.walk_eq]
  exact List.mem_cons_of_mem _ hs

end Checking

end Screens

/-! ### Compiled screens -/

namespace Compilation

variable {options : Options} {library : Screens.Library} {schemas : List String} {d d' : Draft}

/-- A model whose screens are its root alone has closed screens. -/
theorem screensClosed_of_bare (h : m.screens.untitled = .rootOf "") : m.ScreensClosed := by
  intro s hs
  have hchildren : m.screens.children = [] := congrArg Screen.children h
  have hkind : m.screens.kind = .root := congrArg Screen.kind h
  have hgroup : m.screens.group = none := congrArg Screen.group h
  rw [Screen.walk_eq, Screen.inner, hchildren, Screen.walkAll, List.mem_singleton] at hs
  subst hs
  refine ⟨?_, by simp [hgroup]⟩
  rw [hkind]
  trivial

theorem completeSchemas_closed (h : completeSchemas options schemas = .ok d) :
    d.model.ScreensClosed := screensClosed_of_bare (completeSchemas_bare h)

theorem addScreens_steps {dialect : Dialect} {text : String}
    (h : addScreens dialect library text d = .ok d') : ∃ d₁ warnings,
      Ends (Screens.read dialect library text) d () d₁ ∧
      Screens.check d₁.model = .ok warnings ∧ d'.model = d₁.model := by
  unfold addScreens at h
  rcases hread : (Screens.read dialect library text).run d with ⟨outcome, draft⟩
  rw [hread] at h
  obtain ⟨_, rfl, hrest⟩ := Except.bind_ok h
  obtain ⟨warnings, hcheck, hrest⟩ := Except.bind_ok hrest
  cases hrest
  exact ⟨draft, warnings, hread, Except.mapError_ok (g := Failure.screen) hcheck, rfl⟩

/-- Only the library makes it look as if a form hid an unknown field. -/
theorem addScreens_fails {dialect : Dialect} {text : String} (hd : d.model.ScreensClosed) :
    FailsAs (fun e => e.isUnknownHidden = true → ∃ file, library file = .error e)
      (addScreens dialect library text d) := by
  have hread : Heeds (.screens library) (Screens.read dialect library text) d := Screens.read_heeds
  have hfails := hread.failures
  unfold addScreens
  rcases hrun : (Screens.read dialect library text).run d with ⟨outcome, draft⟩
  rw [hrun] at hfails
  refine .bind hfails fun _ hok => .bind (.mapError fun e he hunknown => ?_) fun _ _ => .pure
  subst hok
  have hclosed : draft.model.ScreensClosed := (hread.of_ends hrun).2 hd
  exact absurd hunknown (Bool.eq_false_iff.mp (Screens.check_fails hclosed e he))

theorem compile_closed {screens : Option String} {c : Compiled}
    (h : compile options library schemas screens = .ok c) :
    c.model.ScreensClosed ∧ ∀ s ∈ c.model.screens.inner, Text.hasSpace s.name = false := by
  obtain ⟨d, hd, h⟩ := Except.bind_ok h
  have hclosed := completeSchemas_closed hd
  cases screens with
  | none =>
    cases h
    have hchildren : d.model.screens.children = [] :=
      congrArg Screen.children (completeSchemas_bare hd)
    exact ⟨hclosed, by simp [Screen.inner, hchildren, Screen.walkAll]⟩
  | some text =>
    obtain ⟨d', hadd, h⟩ := Except.bind_ok h
    cases h
    obtain ⟨d₁, warnings, hread, hcheck, hmodel⟩ := addScreens_steps hadd
    dsimp only
    rw [hmodel]
    exact ⟨(Screens.read_heeds.of_ends hread).2 hclosed, Screens.check_names hcheck⟩

theorem compile_fails {screens : Option String} :
    FailsAs (fun e => e.isUnknownHidden = true → ∃ file, library file = .error e)
      (compile options library schemas screens) := by
  refine .bind (fun e he hunknown => ?_) fun d hd => ?_
  · have hspared : e.isScreen = false := completeSchemas_spares e he
    rw [Failure.isScreen_of_isUnknownHidden hunknown] at hspared
    cases hspared
  · cases screens with
    | none => exact .pure
    | some text => exact .bind (addScreens_fails (completeSchemas_closed hd)) fun _ _ => .pure

end Compilation

open Compilation (compile completeSchemas)

/-- The screens of a compiled model are closed: every entity and every field that one of them
names is there, under just this name; no group has both rights on a screen, and no screen
inside the root has white space in its name. The check of the screens that were read never
finds that a form hides an unknown field; a compilation ends with this failure only if it is
what the library says of a document. -/
theorem compiled_screens_closed (options : Options) (library : Screens.Library)
    (schemas : List String) (screens : Option String) :
    (∀ c, compile options library schemas screens = .ok c → c.model.ScreensClosed ∧
      ∀ s ∈ c.model.screens.inner, Text.hasSpace s.name = false) ∧
    (∀ draft draft' text, completeSchemas options schemas = .ok draft →
      Ends (Screens.read options.dialect library text) draft () draft' →
      ∀ screen name entity,
        Screens.check draft'.model ≠ .error (.hiddenUnknownField screen name entity)) ∧
    ∀ screen name entity, compile options library schemas screens =
        .error (.screen (.hiddenUnknownField screen name entity)) →
      ∃ file, library file = .error (.screen (.hiddenUnknownField screen name entity)) := by
  refine ⟨fun c hc => ?_, fun draft draft' text hdraft hread screen name entity h => ?_,
    fun screen name entity h => Compilation.compile_fails _ h rfl⟩
  · exact Compilation.compile_closed hc
  · have hclosed := Compilation.completeSchemas_closed hdraft
    have hclosed' := (Screens.read_heeds.of_ends hread).2 hclosed
    cases Screens.check_fails hclosed' _ h

/-- Samples, each with the sample that it was taken from. -/
def samples : String :=
  "<lab><entity name='Sample'><field name='id' type='autoid'/>" ++
  "<field name='note' type='string' nillable='true'/>" ++
  "<field name='origin' type='xref' xref_entity='Sample' nillable='true'/></entity></lab>"

/-- A menu around the screens of another document. -/
def sampleMenu : String := "<lab><menu name='All'><include file='samples'/></menu></lab>"

/-- The other document has a form and a tree, with names in other letter cases. -/
def sampleLibrary : Screens.Library := fun file =>
  if file = "samples" then
    .ok <| "<lab><form entity='sample' hide_fields='NOTE' compact_view='Id,Note'/>" ++
      "<tree name='Tree' entity='Sample' parentfield='Origin' idfield='ID' labelfield='id'/></lab>"
  else .error (.inclusion file "there is no such document")

/-- A library that fails as if a form hid an unknown field. -/
def deceptiveLibrary : Screens.Library := fun file =>
  .error (.screen (.hiddenUnknownField "Sample" "colour" file))

theorem samples_closed :
    (∃ c, compile {} sampleLibrary [samples] (some sampleMenu) = .ok c ∧
      c.model.screens.inner.map (·.name) = ["All", "sample", "Tree"] ∧
      c.model.screens.forms.map (·.hideFields) = [["note"]] ∧ c.model.ScreensClosed) ∧
    (∃ draft draft', completeSchemas {} [samples] = .ok draft ∧
      Ends (Screens.read .generic sampleLibrary sampleMenu) draft () draft' ∧
      ∀ screen name entity,
        Screens.check draft'.model ≠ .error (.hiddenUnknownField screen name entity)) ∧
    ∃ file, deceptiveLibrary file =
      .error (.screen (.hiddenUnknownField "Sample" "colour" "samples")) := by
  have hcompile : (compile {} sampleLibrary [samples] (some sampleMenu)).toOption.any (fun c =>
      c.model.screens.inner.map (·.name) = ["All", "sample", "Tree"] ∧
      c.model.screens.forms.map (·.hideFields) = [["note"]]) = true := by
    decide +kernel
  obtain ⟨c, hc, hscreens⟩ := Except.exists_ok_and hcompile
  obtain ⟨hnames, hforms⟩ := of_decide_eq_true hscreens
  obtain ⟨hclosed, hcheck, -⟩ :=
    compiled_screens_closed {} sampleLibrary [samples] (some sampleMenu)
  refine ⟨⟨c, hc, hnames, hforms, (hclosed c hc).1⟩, ?_, ?_⟩
  · obtain ⟨draft, hdraft, h⟩ := Except.bind_ok hc
    obtain ⟨_, hadd, -⟩ := Except.bind_ok h
    obtain ⟨draft', _, hread, -⟩ := Compilation.addScreens_steps hadd
    exact ⟨draft, draft', hdraft, hread, hcheck draft draft' _ hdraft hread⟩
  · have hfails : (match compile {} deceptiveLibrary [] (some sampleMenu) with
        | .error e => e = .screen (.hiddenUnknownField "Sample" "colour" "samples")
        | .ok _ => false) = true := by
      decide +kernel
    refine (compiled_screens_closed {} deceptiveLibrary [] (some sampleMenu)).2.2 _ _ _ ?_
    split at hfails
    · next e he => rw [he, of_decide_eq_true hfails]
    · cases hfails

end EntitySchema
