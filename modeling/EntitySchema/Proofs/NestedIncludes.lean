import EntitySchema.Proofs.ScreenRuns
import Mathlib

/-! Includes inside includes. Documents may include each other, and themselves, as often as they
like: reading always comes to an end. The library is asked for a document only while fewer than
sixteen includes are open; an include that is met inside sixteen is a failure; and documents
whose includes nest no deeper never fail for their nesting. -/

namespace EntitySchema.Screens

open Xml (Element)

variable {m : Model} {library library' : Library} {within files : List String}
  {parent file : String} {x root : Element} {xs ys : List Element} {g g' : Gathered}
  {o : Except Failure Unit} {events : List Event} {e : Event}

/-! ### Nesting -/

/-- The element is one of the elements that are read, or stands inside screens that they
declare. -/
inductive Inside (x : Element) : List Element → Prop
  | here {xs : List Element} (hx : x ∈ xs) : Inside x xs
  | deeper {y : Element} {xs : List Element} (hy : y ∈ xs) (hname : y.name ∈ screenElements)
      (inner : Inside x y.children) : Inside x xs

theorem Inside.mono (h : Inside x xs) (hxs : xs ⊆ ys) : Inside x ys := by
  cases h with
  | here hx => exact .here (hxs hx)
  | deeper hy hname inner => exact .deeper (hxs hy) hname inner

theorem Inside.eq_of_leaf {y : Element} (h : Inside y [x]) (hleaf : x.children = []) : y = x := by
  cases h with
  | here hy => exact List.mem_singleton.mp hy
  | deeper hz _ inner =>
    obtain rfl := List.mem_singleton.mp hz
    rw [hleaf] at inner
    cases inner <;> contradiction

/-- Includes that can be open one inside the other, the outermost first: the next one stands in
the document that the one before it names. The last one need not name a document. -/
inductive Nested (library : Library) : List Element → List String → Prop
  | last {x : Element} {xs : List Element} {file : String} (hx : Inside x xs)
      (hname : x.name = "include") (hfile : x.filled? "file" = some file) :
      Nested library xs [file]
  | opened {x root : Element} {xs : List Element} {file : String} {files : List String}
      (hx : Inside x xs) (hname : x.name = "include") (hfile : x.filled? "file" = some file)
      (hopen : openDocument library file = .ok root)
      (inner : Nested library root.children files) : Nested library xs (file :: files)

theorem Nested.mono (h : Nested library xs files) (hxs : ∀ x, Inside x xs → Inside x ys) :
    Nested library ys files := by
  cases h with
  | last hx hname hfile => exact .last (hxs _ hx) hname hfile
  | opened hx hname hfile hopen inner => exact .opened (hxs _ hx) hname hfile hopen inner

/-! ### Events -/

namespace Event

/-- What an event on the way to an outcome tells: the library is asked while there is room for
one more include, and an include without room ends the reading. -/
def Sound (o : Except Failure Unit) : Event → Prop
  | asked within _ => within.length < maxNesting
  | refused within file => within.length = maxNesting ∧
      o = .error (.inclusion file "includes are nested too deeply")

/-- What happens on the way to a success is no reason to fail. -/
theorem Sound.of_ok (h : e.Sound (.ok ())) (o : Except Failure Unit) : e.Sound o := by
  cases e with
  | asked => exact h
  | refused => cases h.2

end Event

theorem Reads.sound (h : Reads m library within parent xs g o g' events)
    (hdepth : within.length ≤ maxNesting) : ∀ e ∈ events, e.Sound o := by
  induction h with
  | done | undeclared | unnamed => simp
  | skipped _ _ ih | unfilled _ _ _ ih => exact ih hdepth
  | declared _ _ _ _ ihinside ihrest =>
    intro e he
    rcases List.mem_append.mp he with he | he
    · exact (ihinside hdepth e he).of_ok _
    · exact ihrest hdepth e he
  | refused _ _ hdeep =>
    intro e he
    obtain rfl := List.mem_singleton.mp he
    exact ⟨Nat.le_antisymm hdepth hdeep, rfl⟩
  | unopened _ _ hroom =>
    intro e he
    obtain rfl := List.mem_singleton.mp he
    exact hroom
  | unread _ _ hroom _ _ ih =>
    intro e he
    rcases List.mem_cons.mp he with rfl | he
    · exact hroom
    · exact ih hroom e he
  | included _ _ hroom _ _ _ ihinner ihrest =>
    intro e he
    rcases List.mem_append.mp he with he | he
    · rcases List.mem_cons.mp he with rfl | he
      · exact hroom
      · exact (ihinner hroom e he).of_ok _
    · exact ihrest hdepth e he

/-- The includes that are open at the event, and the one that is met there, are nested. -/
def Event.Nests (library : Library) (within : List String) (xs : List Element) (e : Event) :
    Prop :=
  ∃ files, e.within = files.reverse ++ within ∧ Nested library xs (files ++ [e.file])

namespace Event.Nests

theorem mono (h : e.Nests library within xs) (hxs : ∀ x, Inside x xs → Inside x ys) :
    e.Nests library within ys := by
  obtain ⟨files, hwithin, hnested⟩ := h
  exact ⟨files, hwithin, hnested.mono hxs⟩

theorem cons (h : e.Nests library within xs) : e.Nests library within (x :: xs) :=
  h.mono fun _ hy => hy.mono (List.subset_cons_self x xs)

theorem inside (hname : x.name ∈ screenElements) (h : e.Nests library within x.children) :
    e.Nests library within (x :: xs) :=
  h.mono fun _ hy => .deeper List.mem_cons_self hname hy

theorem here (hname : x.name = "include") (hfile : x.filled? "file" = some e.file) :
    e.Nests library e.within (x :: xs) :=
  ⟨[], rfl, .last (.here List.mem_cons_self) hname hfile⟩

theorem opened (hname : x.name = "include") (hfile : x.filled? "file" = some file)
    (hopen : openDocument library file = .ok root)
    (h : e.Nests library (file :: within) root.children) : e.Nests library within (x :: xs) := by
  obtain ⟨files, hwithin, hnested⟩ := h
  refine ⟨file :: files, by simp [hwithin], ?_⟩
  exact .opened (.here List.mem_cons_self) hname hfile hopen hnested

end Event.Nests

theorem Reads.nested (h : Reads m library within parent xs g o g' events) :
    ∀ e ∈ events, e.Nests library within xs := by
  induction h with
  | done | undeclared | unnamed => simp
  | skipped _ _ ih => exact fun e he => (ih e he).cons
  | unfilled hname _ _ ih => exact fun e he => (ih e he).inside hname
  | declared hname _ _ _ ihinside ihrest =>
    intro e he
    rcases List.mem_append.mp he with he | he
    · exact (ihinside e he).inside hname
    · exact (ihrest e he).cons
  | refused hname hfile _ | unopened hname hfile _ _ =>
    intro e he
    obtain rfl := List.mem_singleton.mp he
    exact .here hname hfile
  | unread hname hfile _ hopen _ ih =>
    intro e he
    rcases List.mem_cons.mp he with rfl | he
    · exact .here hname hfile
    · exact (ih e he).opened hname hfile hopen
  | included hname hfile _ hopen _ _ ihinner ihrest =>
    intro e he
    rcases List.mem_append.mp he with he | he
    · rcases List.mem_cons.mp he with rfl | he
      · exact .here hname hfile
      · exact (ihinner e he).opened hname hfile hopen
    · exact (ihrest e he).cons

/-- The answers to what is asked are the same in another library. -/
def Agree (library library' : Library) (events : List Event) : Prop :=
  ∀ within file, .asked within file ∈ events → library' file = library file

namespace Agree

variable {events' : List Event}

theorem mono (h : Agree library library' events) (hsub : events' ⊆ events) :
    Agree library library' events' :=
  fun within file he => h within file (hsub he)

theorem left (h : Agree library library' (events ++ events')) : Agree library library' events :=
  h.mono (List.subset_append_left _ _)

theorem right (h : Agree library library' (events ++ events')) :
    Agree library library' events' :=
  h.mono (List.subset_append_right _ _)

theorem tail (h : Agree library library' (e :: events)) : Agree library library' events :=
  h.mono (List.subset_cons_self _ _)

theorem opened (h : Agree library library' (.asked within file :: events)) :
    openDocument library' file = openDocument library file := by
  unfold openDocument
  rw [h within file List.mem_cons_self]

end Agree

/-- A library with the same answers to what is asked leads to the same reading. -/
theorem Reads.agree (h : Reads m library within parent xs g o g' events)
    (hsame : Agree library library' events) :
    Reads m library' within parent xs g o g' events := by
  induction h with
  | done => exact .done
  | skipped hname _ ih => exact .skipped hname (ih hsame)
  | undeclared hname node => exact .undeclared hname node
  | unfilled hname node _ ih => exact .unfilled hname node (ih hsame)
  | declared hname node _ _ ihinside ihrest =>
    exact .declared hname node (ihinside hsame.left) (ihrest hsame.right)
  | unnamed hname hfile => exact .unnamed hname hfile
  | refused hname hfile hdeep => exact .refused hname hfile hdeep
  | unopened hname hfile hdepth hopen =>
    exact .unopened hname hfile hdepth (hsame.opened.trans hopen)
  | unread hname hfile hdepth hopen _ ih =>
    exact .unread hname hfile hdepth (hsame.opened.trans hopen) (ih hsame.tail)
  | included hname hfile hdepth hopen _ _ ihinner ihrest =>
    exact .included hname hfile hdepth (hsame.left.opened.trans hopen) (ihinner hsame.left.tail)
      (ihrest hsame.right)

/-- A single screen is never read without success for want of a document. -/
theorem readScreen_fails {e : Failure} {noted noted' : List Warning}
    (h : (readScreen m parent x).run noted = (.error e, noted')) : ∃ fault, e = .screen fault := by
  have hheeds : Heeds (.keeping (fun _ => ()) fun e => ∃ fault, e = .screen fault)
      (readScreen m parent x) noted :=
    readScreen_node (fun _ _ => rfl) fun fault => ⟨fault, rfl⟩
  exact hheeds.failures e (by rw [h])

/-- Where a document is missing, an include was refused or the library says so. -/
theorem Reads.missing {reason : String} (h : Reads m library within parent xs g o g' events)
    (ho : o = .error (.inclusion file reason)) : (∃ opened, .refused opened file ∈ events) ∨
      ∃ opened asked, .asked opened asked ∈ events ∧
        library asked = .error (.inclusion file reason) := by
  induction h with
  | done => cases ho
  | skipped _ _ ih | unfilled _ _ _ ih => exact ih ho
  | undeclared _ node =>
    obtain ⟨fault, rfl⟩ := readScreen_fails node
    cases ho
  | declared _ _ _ _ _ ihrest =>
    refine (ihrest ho).imp ?_ ?_
    · exact fun ⟨opened, h⟩ => ⟨opened, List.mem_append_right _ h⟩
    · exact fun ⟨opened, asked, h, hlibrary⟩ => ⟨opened, asked, List.mem_append_right _ h, hlibrary⟩
  | unnamed => cases ho
  | @refused opened =>
    cases ho
    exact .inl ⟨opened, List.mem_singleton_self _⟩
  | @unopened opened _ asked _ _ _ _ _ _ _ hopen =>
    cases ho
    unfold openDocument at hopen
    cases hlibrary : library asked with
    | error e =>
      rw [hlibrary] at hopen
      cases hopen
      exact .inr ⟨opened, asked, List.mem_singleton_self _, hlibrary⟩
    | ok text =>
      rw [hlibrary] at hopen
      cases hparse : Xml.parse text <;> simp [hparse, Except.mapError, bind, Except.bind] at hopen
  | unread _ _ _ _ _ ih =>
    refine (ih ho).imp ?_ ?_
    · exact fun ⟨opened, h⟩ => ⟨opened, List.mem_cons_of_mem _ h⟩
    · exact fun ⟨opened, asked, h, hlibrary⟩ => ⟨opened, asked, List.mem_cons_of_mem _ h, hlibrary⟩
  | included _ _ _ _ _ _ _ ihrest =>
    refine (ihrest ho).imp ?_ ?_
    · exact fun ⟨opened, h⟩ => ⟨opened, List.mem_append_right _ h⟩
    · exact fun ⟨opened, asked, h, hlibrary⟩ => ⟨opened, asked, List.mem_append_right _ h, hlibrary⟩

/-! ### Documents -/

section Documents

variable {dialect : Dialect} {text : String} {d d' : Draft}

theorem ReadsDocument.sound (h : ReadsDocument dialect library text d o d' events) :
    ∀ e ∈ events, e.Sound o := by
  cases h with
  | malformed | disallowed | illegal => simp
  | admitted _ _ _ reads => exact reads.sound (Nat.zero_le _)

theorem ReadsDocument.nested (h : ReadsDocument dialect library text d o d' events) :
    ∀ e ∈ events, ∃ root, Xml.parse text = .ok root ∧
      Nested library root.children (e.within.reverse ++ [e.file]) := by
  cases h with
  | malformed | disallowed | illegal => simp
  | @admitted root _ _ _ hroot _ _ reads =>
    intro e he
    obtain ⟨files, hwithin, hnested⟩ := reads.nested e he
    refine ⟨root, hroot, ?_⟩
    rwa [hwithin, List.append_nil, List.reverse_reverse]

theorem ReadsDocument.agree (h : ReadsDocument dialect library text d o d' events)
    (hsame : Agree library library' events) :
    ReadsDocument dialect library' text d o d' events := by
  cases h with
  | malformed hroot => exact .malformed hroot
  | disallowed hroot hchecked => exact .disallowed hroot hchecked
  | illegal hroot hchecked hname => exact .illegal hroot hchecked hname
  | admitted hroot hchecked hname reads =>
    exact .admitted hroot hchecked hname (reads.agree hsame)

theorem ReadsDocument.missing {reason : String}
    (h : ReadsDocument dialect library text d o d' events)
    (ho : o = .error (.inclusion file reason)) : (∃ opened, .refused opened file ∈ events) ∨
      ∃ opened asked, .asked opened asked ∈ events ∧
        library asked = .error (.inclusion file reason) := by
  cases h with
  | malformed | disallowed | illegal => cases ho
  | admitted _ _ _ reads => exact reads.missing ho

/-- The includes of the document nest at most sixteen deep, with all that they include. -/
def Shallow (library : Library) (text : String) : Prop :=
  ∀ root files, Xml.parse text = .ok root → Nested library root.children files → files.length ≤ 16

theorem ReadsDocument.not_refused (h : ReadsDocument dialect library text d o d' events)
    (hshallow : Shallow library text) : .refused within file ∉ events := by
  intro he
  obtain ⟨root, hroot, hnested⟩ := h.nested _ he
  have hfiles := hshallow root _ hroot hnested
  have hdeep : within.length = maxNesting := (h.sound _ he).1
  simp only [Event.within, List.length_append, List.length_reverse, List.length_singleton] at hfiles
  rw [hdeep] at hfiles
  exact absurd hfiles (by decide)

/-- Includes always come to an end. Whatever documents the library holds, reading a document
comes to an end, with the outcome of the program, and with an event for each include of a file
on the way. The includes that are open at an event really stand one inside the other. The
library is asked only while fewer than sixteen of them are open, and what it would say about
other files makes no difference. An include that is met inside sixteen ends the reading with a
failure. Where includes nest at most sixteen deep, none is refused, and a document is missing
only if the library says so. -/
theorem includes_end (dialect : Dialect) (library : Library) (text : String) (d : Draft) :
    (∃ outcome after events, ReadsDocument dialect library text d outcome after events) ∧
    ∀ outcome after events, ReadsDocument dialect library text d outcome after events →
      (read dialect library text).run d = (outcome, after) ∧
      (∀ e ∈ events, ∃ root, Xml.parse text = .ok root ∧
        Nested library root.children (e.within.reverse ++ [e.file])) ∧
      (∀ within file, .asked within file ∈ events → within.length < 16) ∧
      (∀ library', Agree library library' events →
        (read dialect library' text).run d = (outcome, after)) ∧
      (∀ within file, .refused within file ∈ events → within.length = 16 ∧
        outcome = .error (.inclusion file "includes are nested too deeply")) ∧
      (Shallow library text → (∀ within file, .refused within file ∉ events) ∧
        ∀ file reason, outcome = .error (.inclusion file reason) →
          ∃ within asked, .asked within asked ∈ events ∧
            library asked = .error (.inclusion file reason)) := by
  refine ⟨exists_readsDocument dialect library text d, fun outcome after events h => ?_⟩
  refine ⟨h.run, h.nested, fun within file he => ?_, fun library' hsame => ?_,
    fun within file he => ?_, fun hshallow => ?_⟩
  · exact h.sound (.asked within file) he
  · exact (h.agree hsame).run
  · exact h.sound (.refused within file) he
  · refine ⟨fun within file => h.not_refused hshallow, fun file reason ho => ?_⟩
    refine (h.missing ho).resolve_left ?_
    rintro ⟨opened, he⟩
    exact h.not_refused hshallow he

/-- One document is a menu, every other one includes itself. -/
def menuLibrary : Library := fun file =>
  if file = "menu" then .ok "<lab><menu name='Main'/></lab>"
  else .ok "<lab><include file='loop'/></lab>"

theorem menuLibrary_shallow : Shallow menuLibrary "<lab><include file='menu'/></lab>" := by
  have hparse : Xml.parse "<lab><include file='menu'/></lab>" =
      .ok ⟨"lab", [], [⟨"include", [("file", "menu")], [], ""⟩], ""⟩ := by cbv
  have hopened : openDocument menuLibrary "menu" =
      .ok ⟨"lab", [], [⟨"menu", [("name", "Main")], [], ""⟩], ""⟩ := by cbv
  have hfilled : Element.filled? ⟨"include", [("file", "menu")], [], ""⟩ "file" = some "menu" := by
    decide +kernel
  have hmenu : ∀ files, ¬ Nested menuLibrary [⟨"menu", [("name", "Main")], [], ""⟩] files := by
    intro files hnested
    cases hnested with
    | last hx hname | opened hx hname =>
      rw [hx.eq_of_leaf rfl] at hname
      exact absurd hname (by decide)
  intro root files hroot hnested
  rw [hparse] at hroot
  cases hroot
  cases hnested with
  | last => exact Nat.le_of_ble_eq_true rfl
  | opened hx _ hfile hopen inner =>
    rw [hx.eq_of_leaf rfl, hfilled] at hfile
    cases hfile
    rw [hopened] at hopen
    cases hopen
    exact absurd inner (hmenu _)

/-- A document that includes itself is refused, and one that includes a menu is not. -/
theorem menuLibrary_ends :
    (∃ after events, ReadsDocument .generic menuLibrary "<lab><include file='loop'/></lab>" boxDraft
      (.error (.inclusion "loop" "includes are nested too deeply")) after events ∧
      ∀ within file, .asked within file ∈ events → within.length < 16) ∧
    ∃ after events, ReadsDocument .generic menuLibrary "<lab><include file='menu'/></lab>" boxDraft
      (.ok ()) after events ∧ ∀ within file, .refused within file ∉ events := by
  have hloop : ((read .generic menuLibrary "<lab><include file='loop'/></lab>").run boxDraft).1 =
      .error (.inclusion "loop" "includes are nested too deeply") := by
    decide +kernel
  have hmenu : ((read .generic menuLibrary "<lab><include file='menu'/></lab>").run boxDraft).1 =
      .ok () := by
    decide +kernel
  constructor
  · obtain ⟨⟨outcome, after, events, h⟩, hall⟩ :=
      includes_end .generic menuLibrary "<lab><include file='loop'/></lab>" boxDraft
    obtain ⟨hrun, -, hasked, -⟩ := hall outcome after events h
    rw [hrun] at hloop
    subst hloop
    exact ⟨after, events, h, hasked⟩
  · obtain ⟨⟨outcome, after, events, h⟩, hall⟩ :=
      includes_end .generic menuLibrary "<lab><include file='menu'/></lab>" boxDraft
    obtain ⟨hrun, -, -, -, -, hshallow⟩ := hall outcome after events h
    rw [hrun] at hmenu
    subst hmenu
    exact ⟨after, events, h, (hshallow menuLibrary_shallow).1⟩

end Documents

end EntitySchema.Screens
