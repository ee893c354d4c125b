import EntitySchema.Proofs.Numerals
import EntitySchema.Proofs.ReadingStages

/-! Numbers in attributes: the length of a string field, the allocation size of an entity and the
limit of a form. The text in the attribute is taken exactly if it writes a number that its place
can hold, and this number is what is stored. -/

namespace EntitySchema

open Xml (Element)
open Text.Numeral (Fits max32 max64 read?_eq_some_iff)

/-! ### Reading the attribute -/

variable {α β γ : Type} {s : String} {largest : Nat} {noted noted' : List Warning}

/-- The work finds the number that the text writes, if that fits. If none does, the work fails,
and it is the form of the document that is at fault. -/
structure FindsNumber (s : String) (largest : Nat) (wrap : Nat → γ) (fault : Failure)
    (work : Except Failure γ) : Prop where
  found : ∀ c, work = .ok c ↔ ∃ n, Fits s largest n ∧ c = wrap n
  refused : (∀ n, ¬Fits s largest n) → work = .error fault
  formal : fault.category = .form

theorem FindsNumber.of_read {wrap : Nat → γ} {fault : Failure} {work : Except Failure γ}
    (hformal : fault.category = .form)
    (hwork : work = match Text.Numeral.read? largest (Text.trim s) with
      | some n => .ok (wrap n)
      | none => .error fault) : FindsNumber s largest wrap fault work := by
  have hfits : ∀ n, Text.Numeral.read? largest (Text.trim s) = some n ↔ Fits s largest n :=
    fun n => read?_eq_some_iff
  subst hwork
  constructor
  · intro c
    simp only [← hfits]
    split
    · next n hread => simp [hread, eq_comm]
    · next hread => simp [hread]
  · intro hnone
    split
    · next n hread => exact absurd ((hfits n).mp hread) (hnone n)
    · rfl
  · exact hformal

section Readers

variable {x : Element} {key owner form : String}

theorem filled?_eq (hattr : x.attr? key = some s) (hfilled : Text.isBlank s = false) :
    x.filled? key = some s := by
  unfold Element.filled?
  rw [hattr, Option.filter_some, hfilled]
  rfl

theorem number?_finds (hattr : x.attr? key = some s) (hfilled : Text.isBlank s = false) :
    FindsNumber s largest some (.schema (.noNumber key s owner))
      ((Schema.number? x key owner largest).mapError .schema) := by
  refine .of_read rfl ?_
  unfold Schema.number?
  rw [filled?_eq hattr hfilled]
  dsimp only
  cases Text.Numeral.read? largest (Text.trim s) <;> rfl

theorem readType_finds (hattr : x.attr? "length" = some s) (hfilled : Text.isBlank s = false) :
    FindsNumber s max64 .string (.schema (.noNumber "length" s owner))
      ((Schema.readType x owner .string).mapError .schema) := by
  refine .of_read rfl ?_
  unfold Schema.readType Schema.number?
  rw [filled?_eq hattr hfilled]
  dsimp only
  cases Text.Numeral.read? max64 (Text.trim s) <;> rfl

theorem readLimit_finds (hattr : x.attr? "limit" = some s) (hfilled : Text.isBlank s = false) :
    FindsNumber s max64 id (.screen (.badFormLimit form s))
      ((Screens.readLimit form x).mapError .screen) := by
  refine .of_read rfl ?_
  unfold Screens.readLimit
  rw [filled?_eq hattr hfilled]
  dsimp only
  cases Text.Numeral.read? max64 (Text.trim s) <;> rfl

end Readers

/-! ### Reading the element -/

/-- The work takes the number that the text writes, if that fits, and stores it. If none does,
the work fails, and it is the form of the document that is at fault. -/
structure StoresNumber (s : String) (largest : Nat) (store : Nat → α) (work : Noting α)
    (noted noted' : List Warning) : Prop where
  stored : ∀ a noted'', Ends work noted a noted'' ↔
    ∃ n, Fits s largest n ∧ a = store n ∧ noted'' = noted'
  refused : (∀ n, ¬Fits s largest n) → ∃ failure noted'',
    work.run noted = (.error failure, noted'') ∧ failure.category = .form

/-- Work in three stages: what comes before the number, the number, and the rest, to which it
makes no other difference than that it is stored. If the work succeeds with any number, it
takes the one that the text writes. -/
theorem StoresNumber.of_stages {work work' : Noting α} {heading : Noting β}
    {number number' : β → Except Failure γ} {rest : β → γ → Noting α} {a : α}
    (wrap : Nat → γ) (store : Nat → α → α)
    (hwork : work = heading >>= fun b => liftM (number b) >>= rest b)
    (hwork' : work' = heading >>= fun b => liftM (number' b) >>= rest b)
    (hnumber : ∀ b noted₁, Ends heading noted b noted₁ →
      ∃ fault, FindsNumber s largest wrap fault (number b))
    (hrest : ∀ b c n, rest b (wrap n) = store n <$> rest b c)
    (h : Ends work' noted a noted') : StoresNumber s largest (store · a) work noted noted' := by
  subst hwork hwork'
  obtain ⟨b, noted₁, hheading, h⟩ := h.bind
  obtain ⟨c, -, h⟩ := h.lift_bind
  obtain ⟨fault, hfinds⟩ := hnumber b noted₁ hheading
  have hrun : ∀ n, Ends (rest b (wrap n)) noted₁ (store n a) noted' := by
    intro n
    rw [hrest b c n]
    exact h.map
  have hwork : (heading >>= fun b => liftM (number b) >>= rest b).run noted =
      (liftM (number b) >>= rest b).run noted₁ := by
    rw [run_bind, hheading]
  constructor
  · intro a' noted''
    unfold Ends
    rw [hwork]
    constructor
    · intro hends
      obtain ⟨c', hfound, hends⟩ := Ends.lift_bind hends
      obtain ⟨n, hfits, rfl⟩ := (hfinds.found c').mp hfound
      cases (hrun n).symm.trans hends
      exact ⟨n, hfits, rfl, rfl⟩
    · rintro ⟨n, hfits, rfl, rfl⟩
      rw [(hfinds.found (wrap n)).mpr ⟨n, hfits, rfl⟩]
      exact hrun n
  · intro hnone
    rw [hwork, hfinds.refused hnone]
    exact ⟨fault, noted₁, rfl, hfinds.formal⟩

/-! ### All three -/

open Schema (addField readEntity readType number?)
open Screens (readForm readLimit)

section All

variable {x y : Element} {entity e : Entity} {a : Form × Entity}

theorem addField_stores (hattr : x.attr? "length" = some s) (hfilled : Text.isBlank s = false)
    (hsame : x.SameBut "length" y)
    (hstring : (x.filled? "type").bind DeclaredType.ofName? = some ⟨.string, false⟩)
    (h : Ends (addField entity y) noted e noted') :
    StoresNumber s max64 (e.setLastLength ·) (addField entity x) noted noted' := by
  refine .of_stages FieldType.string Entity.setLastLength (Schema.addField_stages hsame)
    (Schema.addField_stages (.refl "length" y)) (fun heading noted₁ hheading => ?_)
    (fun _ _ _ => Schema.finishField_setLastLength) h
  have hdeclared := Schema.fieldHeading_declared hheading
  rw [← hsame.filled? (by decide), hstring] at hdeclared
  rw [← Option.some.inj hdeclared]
  exact ⟨_, readType_finds hattr hfilled⟩

theorem readEntity_stores {module : Option String} {m : Model}
    (hattr : x.attr? "allocationSize" = some s) (hfilled : Text.isBlank s = false)
    (hsame : x.SameBut "allocationSize" y) (h : Ends (readEntity y module m) noted e noted') :
    StoresNumber s max32 (fun n => e.setAllocationSize (some n)) (readEntity x module m)
      noted noted' :=
  .of_stages some (fun n => Entity.setAllocationSize (some n)) (Schema.readEntity_stages hsame)
    (Schema.readEntity_stages (.refl "allocationSize" y))
    (fun _ _ _ => ⟨_, number?_finds hattr hfilled⟩)
    (fun name size _ => Schema.finishEntity_setAllocationSize
      (Schema.declaredEntity m y module name size)) h

theorem readForm_stores {m : Model} {form : String} (hattr : x.attr? "limit" = some s)
    (hfilled : Text.isBlank s = false) (hsame : x.SameBut "limit" y)
    (h : Ends (readForm m form y) noted a noted') :
    StoresNumber s max64 (Screens.setLimit · a) (readForm m form x) noted noted' :=
  .of_stages id Screens.setLimit (Screens.readForm_stages hsame)
    (Screens.readForm_stages (.refl "limit" y))
    (fun _ _ _ => ⟨_, readLimit_finds hattr hfilled⟩) (fun _ _ _ => Screens.finishForm_setLimit) h

/-- The length of a string field, the allocation size of an entity and the limit of a form are
read exactly. A text that is not blank is taken if it writes a number, with white space around it
perhaps, that is not above the largest number of its place; this number is then stored, and
nothing else is different from what is read when another number stands there. Any other text is
refused, and the form of the document is at fault. -/
theorem numbers_read_exactly (s : String) (hfilled : Text.isBlank s = false) :
    (∀ x, x.attr? "length" = some s →
      (∀ owner, FindsNumber s max64 FieldType.string (.schema (.noNumber "length" s owner))
        ((readType x owner .string).mapError .schema)) ∧
      ((x.filled? "type").bind DeclaredType.ofName? = some ⟨.string, false⟩ →
        ∀ y entity e noted noted', x.SameBut "length" y →
          Ends (addField entity y) noted e noted' →
          StoresNumber s max64 (e.setLastLength ·) (addField entity x) noted noted')) ∧
    (∀ x, x.attr? "allocationSize" = some s →
      (∀ owner, FindsNumber s max32 some (.schema (.noNumber "allocationSize" s owner))
        ((number? x "allocationSize" owner max32).mapError .schema)) ∧
      ∀ y module m e noted noted', x.SameBut "allocationSize" y →
        Ends (readEntity y module m) noted e noted' →
        StoresNumber s max32 (fun n => e.setAllocationSize (some n)) (readEntity x module m)
          noted noted') ∧
    ∀ x, x.attr? "limit" = some s →
      (∀ form, FindsNumber s max64 id (.screen (.badFormLimit form s))
        ((readLimit form x).mapError .screen)) ∧
      ∀ y m form a noted noted', x.SameBut "limit" y → Ends (readForm m form y) noted a noted' →
        StoresNumber s max64 (Screens.setLimit · a) (readForm m form x) noted noted' :=
  ⟨fun _ hattr => ⟨fun _ => readType_finds hattr hfilled, fun hstring _ _ _ _ _ hsame =>
      addField_stores hattr hfilled hsame hstring⟩,
    fun _ hattr => ⟨fun _ => number?_finds hattr hfilled, fun _ _ _ _ _ _ hsame =>
      readEntity_stores hattr hfilled hsame⟩,
    fun _ hattr => ⟨fun _ => readLimit_finds hattr hfilled, fun _ _ _ _ _ _ hsame =>
      readForm_stores hattr hfilled hsame⟩⟩

/-- A field, an entity and a form with a text in the place of a number. -/
def lengthField (length : String) : Element where
  name := "field"
  attributes := [("name", "title"), ("type", "string"), ("length", length)]

def sizedEntity (size : String) : Element where
  name := "entity"
  attributes := [("name", "Sample"), ("allocationSize", size)]

def limitedForm (limit : String) : Element where
  name := "form"
  attributes := [("entity", "Sample"), ("limit", limit)]

/-- The largest number of 64 bits is a length and a limit, but no allocation size. -/
theorem largest_number_read :
    Text.isBlank " +0018446744073709551615\n" = false ∧
    Ends (addField (.named "Sample") (lengthField " +0018446744073709551615\n")) []
      { Entity.named "Sample" with fields := [.named "title" (.string 18446744073709551615)] } [] ∧
    (∃ failure noted, (readEntity (sizedEntity " +0018446744073709551615\n") none .empty).run [] =
      (.error failure, noted) ∧ failure.category = .form) ∧
    ∃ form entity, Ends (readForm { Model.empty with entities := [.named "Sample"] } "samples"
      (limitedForm " +0018446744073709551615\n")) [] (form, entity) [] ∧
        form.limit = 18446744073709551615 := by
  have hfilled : Text.isBlank " +0018446744073709551615\n" = false := by decide
  have hfits : Fits " +0018446744073709551615\n" max64 18446744073709551615 :=
    read?_eq_some_iff.mp (by decide)
  have hunfit : ∀ n, ¬Fits " +0018446744073709551615\n" max32 n := by
    have hread : Text.Numeral.read? max32 (Text.trim " +0018446744073709551615\n") = none := by
      decide
    intro n h
    rw [read?_eq_some_iff.mpr h] at hread
    cases hread
  obtain ⟨hlength, hsize, hlimit⟩ := numbers_read_exactly _ hfilled
  obtain ⟨-, hfield⟩ := hlength (lengthField " +0018446744073709551615\n") rfl
  obtain ⟨-, hentity⟩ := hsize (sizedEntity " +0018446744073709551615\n") rfl
  obtain ⟨-, hform⟩ := hlimit (limitedForm " +0018446744073709551615\n") rfl
  refine ⟨hfilled, ?_, ?_, ?_⟩
  · have hshort : Ends (addField (.named "Sample") (lengthField "80")) []
        { Entity.named "Sample" with fields := [.named "title" (.string 80)] } [] := by rfl
    have hstores := hfield (by decide +kernel) (lengthField "80") _ _ _ _
      ⟨rfl, rfl, rfl, rfl⟩ hshort
    exact (hstores.stored _ _).mpr ⟨_, hfits, rfl, rfl⟩
  · have hsmall : Ends (readEntity (sizedEntity "50") none .empty) []
        { Entity.named "Sample" with scope := "model", allocationSize := some 50 } [] := rfl
    exact (hentity (sizedEntity "50") _ _ _ _ _ ⟨rfl, rfl, rfl, rfl⟩ hsmall).refused hunfit
  · have hshort : Ends (readForm { Model.empty with entities := [.named "Sample"] } "samples"
        (limitedForm "25")) []
        (⟨"Sample", .list, 25, false, none, none, [], none, none, none, [], []⟩, .named "Sample")
        [] := rfl
    have hstores := hform (limitedForm "25") _ _ _ _ _ ⟨rfl, rfl, rfl, rfl⟩ hshort
    exact ⟨_, _, (hstores.stored _ _).mpr ⟨_, hfits, rfl, rfl⟩, rfl⟩

end All

end EntitySchema
