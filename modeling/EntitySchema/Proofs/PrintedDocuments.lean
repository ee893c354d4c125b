import EntitySchema.Xml.Printer
import EntitySchema.Proofs.Run
import Mathlib.Data.List.TakeWhile

/-! Reading what was written. A reference stands for the character that was written as
it, a tag is read as the name and the attributes that were put into it, and the run of
text behind a start tag as the text of the element. So the elements that are written one
after the other go into the element that is open, or the one element into the root. -/

namespace EntitySchema.Xml

open Element (Written printAttribute)

variable {cs rest tail : List Char} {c : Char} {e : Element} {es : List Element} {place : Nat}

/-! ### References -/

namespace Reference

/-- A character is read from what is written for it. -/
theorem expandFrom_escape (total place : Nat) (c : Char) (rest : List Char) :
    ∃ place', expandFrom total place none (escape c ++ rest) =
      (expandFrom total place' none rest).map (c :: ·) := by
  unfold escape
  split
  · next h => subst h; exact ⟨_, rfl⟩
  split
  · next h => subst h; exact ⟨_, rfl⟩
  split
  · next h => subst h; exact ⟨_, rfl⟩
  split
  · next h => subst h; exact ⟨_, rfl⟩
  split
  · next h => subst h; exact ⟨_, rfl⟩
  · next hamp _ _ _ _ => exact ⟨place + c.utf8Size, by simp [expandFrom, hamp]⟩

theorem expandFrom_escapeAll (total place : Nat) (cs : List Char) :
    expandFrom total place none (escapeAll cs) = .ok cs := by
  induction cs generalizing place with
  | nil => rfl
  | cons c cs ih =>
    obtain ⟨place', h⟩ := expandFrom_escape total place c (escapeAll cs)
    rw [escapeAll, List.flatMap_cons, ← escapeAll, h, ih]
    rfl

theorem expand_escapeAll (cs : List Char) : expand (escapeAll cs) = .ok cs :=
  expandFrom_escapeAll _ _ cs

end Reference

/-- No bracket and no quote is written for a character. -/
theorem mem_escape {d : Char} (h : d ∈ escape c) : d ≠ '<' ∧ d ≠ '>' ∧ d ≠ '"' := by
  unfold escape at h
  split at h
  · revert d; simp
  split at h
  · revert d; simp
  split at h
  · revert d; simp
  split at h
  · revert d; simp
  split at h
  · revert d; simp
  · obtain rfl := List.mem_singleton.mp h
    exact ⟨‹_›, ‹_›, ‹_›⟩

theorem mem_escapeAll (h : c ∈ escapeAll cs) : c ≠ '<' ∧ c ≠ '>' ∧ c ≠ '"' := by
  obtain ⟨d, -, hd⟩ := List.mem_flatMap.mp h
  exact mem_escape hd

/-- What is written for a character has space at an end only if the character is one. -/
theorem escape_ends (c : Char) : ∃ first middle last,
    escape c = first :: middle ∧ (escape c).getLast? = some last ∧
      isSpace first = isSpace c ∧ isSpace last = isSpace c := by
  unfold escape
  split
  · next h => subst h; exact ⟨_, _, _, rfl, rfl, rfl, rfl⟩
  split
  · next h => subst h; exact ⟨_, _, _, rfl, rfl, rfl, rfl⟩
  split
  · next h => subst h; exact ⟨_, _, _, rfl, rfl, rfl, rfl⟩
  split
  · next h => subst h; exact ⟨_, _, _, rfl, rfl, rfl, rfl⟩
  split
  · next h => subst h; exact ⟨_, _, _, rfl, rfl, rfl, rfl⟩
  · exact ⟨_, _, _, rfl, rfl, rfl, rfl⟩

/-- Text without space at its ends is written without space at its ends. -/
theorem isTight_escapeAll (h : isTight cs) : isTight (escapeAll cs) := by
  obtain ⟨hhead, hlast⟩ := Bool.and_eq_true_iff.mp h
  refine Bool.and_eq_true_iff.mpr ⟨?_, ?_⟩
  · cases cs with
    | nil => rfl
    | cons c more =>
      obtain ⟨first, middle, _, hescape, -, hfirst, -⟩ := escape_ends c
      rw [escapeAll, List.flatMap_cons, hescape]
      simpa [hfirst] using hhead
  · rcases List.eq_nil_or_concat cs with rfl | ⟨front, c, rfl⟩
    · rfl
    · obtain ⟨_, _, last, -, hescape, -, hc⟩ := escape_ends c
      rw [escapeAll, List.concat_eq_append, List.flatMap_append, List.flatMap_singleton,
        List.getLast?_append, hescape]
      simpa [hc] using hlast

/-- What is left when space around a text is cut off. -/
theorem strip_around {before after : List Char} (hbefore : before.all isSpace)
    (hafter : after.all isSpace) (h : isTight cs) :
    Text.strip isSpace (before ++ cs ++ after) = cs := by
  obtain ⟨hhead, hlast⟩ := Bool.and_eq_true_iff.mp h
  have hfront : (before ++ cs ++ after).dropWhile isSpace = (cs ++ after).dropWhile isSpace := by
    rw [List.append_assoc, List.dropWhile_append_of_pos (List.all_eq_true.mp hbefore)]
  have hback : ∀ {cs : List Char}, cs.getLast?.all (!isSpace ·) →
      (cs ++ after).reverse.dropWhile isSpace = cs.reverse := by
    intro cs hcs
    rw [List.reverse_append, List.dropWhile_append_of_pos (by simpa using hafter)]
    cases hreverse : cs.reverse with
    | nil => rfl
    | cons last front =>
      rw [← List.head?_reverse, hreverse] at hcs
      exact List.dropWhile_cons_of_neg (by simpa using hcs)
  unfold Text.strip
  rw [hfront]
  cases cs with
  | nil =>
    have hnil : after.dropWhile isSpace = [] := by simpa using hafter
    rw [List.nil_append, hnil]
    rfl
  | cons first more =>
    rw [List.cons_append, List.dropWhile_cons_of_neg (by simpa using hhead), ← List.cons_append,
      hback hlast, List.reverse_reverse]

/-! ### Names -/

theorem isName_chars {name : String} (h : isName name) :
    ∃ first more, name.toList = first :: more ∧ isNameStart first ∧
      ∀ c ∈ name.toList, isNameChar c := by
  unfold isName at h
  split at h
  · cases h
  · next first more hname =>
    obtain ⟨hfirst, hmore⟩ := Bool.and_eq_true_iff.mp h
    refine ⟨first, more, hname, hfirst, ?_⟩
    rw [hname]
    refine List.forall_mem_cons.mpr ⟨?_, List.all_eq_true.mp hmore⟩
    simp [isNameStart, isNameChar, Char.isAlphanum] at hfirst ⊢
    tauto

/-- A character that names hold means nothing in markup. -/
theorem isNameChar_plain (h : isNameChar c) :
    isSpace c = false ∧ c ≠ '<' ∧ c ≠ '>' ∧ c ≠ '=' ∧ c ≠ ':' ∧ c ≠ '/' ∧ c ≠ '"' ∧ c ≠ '\'' := by
  have hplain : ∀ d ∈ [' ', '\t', '\r', '\n', '<', '>', '=', ':', '/', '"', '\''],
      isNameChar d = false := by
    simp only [List.forall_mem_cons, List.not_mem_nil, false_implies, implies_true, and_true]
    decide
  have hne : ∀ d ∈ [' ', '\t', '\r', '\n', '<', '>', '=', ':', '/', '"', '\''], c ≠ d := by
    rintro d hd rfl
    simp [hplain c hd] at h
  simp only [List.forall_mem_cons] at hne
  simp [isSpace, hne]

theorem isNameStart_plain (h : isNameStart c) : c ≠ '!' ∧ c ≠ '?' ∧ c ≠ '/' := by
  refine ⟨?_, ?_, ?_⟩ <;> rintro rfl <;> revert h <;> decide

theorem localName_self {name : List Char} (h : ∀ c ∈ name, isNameChar c) :
    localName name = name := by
  have hcolon : name.dropWhile (· ≠ ':') = [] := by
    simp only [List.dropWhile_eq_nil_iff, decide_eq_true_eq]
    exact fun c hc => (isNameChar_plain (h c hc)).2.2.2.2.1
  unfold localName
  rw [hcolon]

/-! ### Tags -/

/-- A tag goes on over characters that are neither brackets nor quotes. -/
theorem cutTag_plain {name : List Char} (h : ∀ c ∈ name, c ≠ '>' ∧ c ≠ '"' ∧ c ≠ '\'') :
    cutTag none (name ++ rest) = (cutTag none rest).map fun cut => (name ++ cut.1, cut.2) := by
  induction name with
  | nil => simp
  | cons c name ih =>
    obtain ⟨⟨hbracket, hdouble, hsingle⟩, hname⟩ := List.forall_mem_cons.mp h
    simp [cutTag, hbracket, hdouble, hsingle, ih hname, Function.comp_def]

/-- Up to the closing quote, brackets do not count. -/
theorem cutTag_quoted {value : List Char} (h : '"' ∉ value) :
    cutTag (some '"') (value ++ '"' :: rest) =
      (cutTag none rest).map fun cut => (value ++ '"' :: cut.1, cut.2) := by
  induction value with
  | nil => simp [cutTag]
  | cons c value ih =>
    obtain ⟨hc, hvalue⟩ := not_or.mp (mt List.mem_cons.mpr h)
    simp [cutTag, Ne.symm hc, ih hvalue, Function.comp_def]

theorem quote_not_mem_escapeAll : '"' ∉ escapeAll cs := fun h => (mem_escapeAll h).2.2 rfl

theorem cutTag_attribute {entry : String × String} (h : isName entry.1) :
    cutTag none (printAttribute entry ++ rest) =
      (cutTag none rest).map fun cut => (printAttribute entry ++ cut.1, cut.2) := by
  obtain ⟨-, -, -, -, hkey⟩ := isName_chars h
  have hkey : ∀ c ∈ ' ' :: (entry.1.toList ++ ['=']), c ≠ '>' ∧ c ≠ '"' ∧ c ≠ '\'' := by
    simp only [List.forall_mem_cons, List.forall_mem_append]
    refine ⟨by decide, fun c hc => ?_, by decide, by simp⟩
    have := isNameChar_plain (hkey c hc)
    simp [this]
  have hprint : printAttribute entry ++ rest =
      (' ' :: (entry.1.toList ++ ['='])) ++ '"' :: (escapeAll entry.2.toList ++ '"' :: rest) := by
    simp [printAttribute]
  have hopen : ∀ cs, cutTag none ('"' :: cs) =
      (cutTag (some '"') cs).map fun cut => ('"' :: cut.1, cut.2) := fun _ => rfl
  rw [hprint, cutTag_plain hkey, hopen, cutTag_quoted quote_not_mem_escapeAll]
  simp [printAttribute, Function.comp_def]

/-- A start tag ends behind its attributes. -/
theorem cutTag_startBody (rest : List Char) (hname : isName e.name)
    (hkeys : ∀ entry ∈ e.attributes, isName entry.1) :
    cutTag none (e.startBody ++ '>' :: rest) = some (e.startBody, rest) := by
  have hattributes : ∀ attributes : List (String × String), (∀ entry ∈ attributes, isName entry.1) →
      cutTag none (attributes.flatMap printAttribute ++ '>' :: rest) =
        some (attributes.flatMap printAttribute, rest) := by
    intro attributes h
    induction attributes with
    | nil => rfl
    | cons entry others ih =>
      obtain ⟨hentry, hothers⟩ := List.forall_mem_cons.mp h
      rw [List.flatMap_cons, List.append_assoc, cutTag_attribute hentry, ih hothers]
      rfl
  obtain ⟨-, -, -, -, hchars⟩ := isName_chars hname
  unfold Element.startBody
  rw [List.append_assoc, cutTag_plain (fun c hc => by simp [isNameChar_plain (hchars c hc)]),
    hattributes _ hkeys]
  rfl

namespace Tag

variable {seen : List RawAttribute}

/-- The first attribute is read from what is written for it. -/
theorem nextAttribute_print {entry : String × String} (place : Nat) (rest : List Char)
    (h : isName entry.1)
    (hseen : ∀ raw ∈ seen, raw.key ≠ entry.1.toList) :
    ∃ place', nextAttribute place (printAttribute entry ++ rest) seen =
      .ok (some (⟨place', entry.1.toList, escapeAll entry.2.toList⟩, rest)) := by
  obtain ⟨first, more, hkey, -, hchars⟩ := isName_chars h
  rw [hkey] at hchars hseen ⊢
  obtain ⟨hfirst, hmore⟩ := List.forall_mem_cons.mp hchars
  have hinKey : ∀ c ∈ more, ((c ≠ '=' : Bool) && !isSpace c) = true := fun c hc => by
    have := isNameChar_plain (hmore c hc)
    simp [this]
  have hvalue : ∀ c ∈ escapeAll entry.2.toList, (!decide (c = '"')) = true := fun c hc => by
    simp [(mem_escapeAll hc).2.2]
  have hstart : (printAttribute entry ++ rest).dropWhile isSpace =
      first :: (more ++ '=' :: '"' :: (escapeAll entry.2.toList ++ '"' :: rest)) := by
    have hspace : isSpace ' ' = true := rfl
    simp [printAttribute, hkey, hspace, isNameChar_plain hfirst]
  have hnew : seen.find? (·.key = first :: more) = none := by simpa using hseen
  have hquote : isSpace '"' = false := rfl
  have hequals : isSpace '=' = false := rfl
  refine ⟨place + byteLength ((printAttribute entry ++ rest).takeWhile isSpace), ?_⟩
  simp only [nextAttribute, hstart, List.takeWhile_append_of_pos hinKey,
    List.dropWhile_append_of_pos hinKey]
  simp [hequals, hquote, hnew, List.takeWhile_append_of_pos hvalue,
    List.dropWhile_append_of_pos hvalue]

theorem attributesFrom_print (attributes : List (String × String))
    (hkeys : ∀ entry ∈ attributes, isName entry.1)
    (hdistinct : (attributes.map (·.1)).Nodup)
    (hseen : ∀ entry ∈ attributes, ∀ raw ∈ seen, raw.key ≠ entry.1.toList) :
    attributesFrom place (attributes.flatMap printAttribute) seen = .ok attributes := by
  induction attributes generalizing place seen with
  | nil =>
    unfold attributesFrom
    rfl
  | cons entry others ih =>
    obtain ⟨hentry, hothers⟩ := List.forall_mem_cons.mp hkeys
    obtain ⟨hfresh, hrest⟩ := List.forall_mem_cons.mp hseen
    obtain ⟨hnew, hdistinct⟩ := List.nodup_cons.mp hdistinct
    obtain ⟨place', hnext⟩ :=
      nextAttribute_print place (others.flatMap printAttribute) hentry hfresh
    have hread : readAttribute ⟨place', entry.1.toList, escapeAll entry.2.toList⟩ = .ok entry := by
      obtain ⟨-, -, -, -, hchars⟩ := isName_chars hentry
      simp [readAttribute, localName_self hchars, Reference.expand_escapeAll]
    rw [List.flatMap_cons, attributesFrom]
    split
    · next h => simp [hnext] at h
    · next h => simp [hnext] at h
    · next h =>
      rw [hnext] at h
      cases h
      rw [hread]
      have hlater : ∀ later ∈ others, ∀ raw ∈ seen ++ [⟨place', entry.1.toList,
          escapeAll entry.2.toList⟩], raw.key ≠ later.1.toList := by
        intro later hlater raw hraw
        rcases List.mem_append.mp hraw with hraw | hraw
        · exact hrest later hlater raw hraw
        · rw [List.mem_singleton.mp hraw]
          intro hsame
          exact hnew (List.mem_map.mpr ⟨later, hlater, (String.toList_injective hsame).symm⟩)
      show (attributesFrom _ _ _ >>= fun others => pure (entry :: others)) = _
      rw [ih hothers hdistinct hlater]
      rfl

/-- The name and the attributes are read as they were. -/
theorem toElement_startBody (hname : isName e.name)
    (hkeys : ∀ entry ∈ e.attributes, isName entry.1)
    (hdistinct : (e.attributes.map (·.1)).Nodup) :
    name e.startBody = e.name.toList ∧
      toElement e.startBody = .ok ⟨e.name, e.attributes, [], ""⟩ := by
  obtain ⟨-, -, -, -, hchars⟩ := isName_chars hname
  have hinName : ∀ c ∈ e.name.toList, (!isSpace c) = true := fun c hc => by
    simp [isNameChar_plain (hchars c hc)]
  have hspace : isSpace ' ' = true := rfl
  -- attributes begin with a space, so the name ends where they begin
  have hends : (e.attributes.flatMap printAttribute).takeWhile (!isSpace ·) = [] ∧
      (e.attributes.flatMap printAttribute).dropWhile (!isSpace ·) =
        e.attributes.flatMap printAttribute := by
    cases e.attributes with
    | nil => simp
    | cons entry others => simp [printAttribute, hspace]
  have htag : name e.startBody = e.name.toList := by
    unfold name Element.startBody
    rw [List.takeWhile_append_of_pos hinName, hends.1, List.append_nil]
  refine ⟨htag, ?_⟩
  unfold toElement
  rw [htag]
  unfold Element.startBody
  rw [List.dropWhile_append_of_pos hinName, hends.2,
    attributesFrom_print _ hkeys hdistinct (by simp), localName_self hchars, String.ofList_toList]
  rfl

end Tag

/-! ### Pieces -/

/-- What follows a run of text that ends at `place`. -/
def lexBehind (place : Nat) : List Char → Lexed
  | [] => .ended place
  | _ :: after =>
    match lexMarkup place after with
    | .error (spot, fault) => .broken spot fault
    | .ok (token, rest) =>
      .piece place token (lexFrom (place + 1 + byteLength after - byteLength rest) rest)

theorem lexFrom_eq (place : Nat) (cs : List Char) : lexFrom place cs =
    .addText (place + byteLength (cs.takeWhile (· ≠ '<'))) (cs.takeWhile (· ≠ '<'))
      (lexBehind (place + byteLength (cs.takeWhile (· ≠ '<'))) (cs.dropWhile (· ≠ '<'))) := by
  rw [lexFrom]
  split
  · next h => rw [h, lexBehind]
  · next h =>
    rw [h, lexBehind]
    split
    · next hmarkup => rw [hmarkup]
    · next hmarkup => rw [hmarkup]

/-- A tag begins here, or nothing is left. -/
def AtTag (cs : List Char) : Prop := ∀ c ∈ cs.head?, c = '<'

/-- A run of text is cut off before the tag that follows it. -/
theorem lexFrom_run {run : List Char} (hrun : '<' ∉ run) (htail : AtTag tail) :
    lexFrom place (run ++ tail) =
      .addText (place + byteLength run) run (lexFrom (place + byteLength run) tail) := by
  have hplain : ∀ c ∈ run, (c ≠ '<' : Bool) = true := fun c hc => by
    simpa using fun h : c = '<' => hrun (h ▸ hc)
  have hends : tail.takeWhile (· ≠ '<') = [] ∧ tail.dropWhile (· ≠ '<') = tail := by
    cases tail with
    | nil => simp
    | cons c rest => simp [htail c rfl]
  rw [lexFrom_eq, lexFrom_eq _ tail, List.takeWhile_append_of_pos hplain,
    List.dropWhile_append_of_pos hplain, hends.1, hends.2, List.append_nil]
  rfl

/-- The markup behind a bracket is one piece. -/
theorem lexFrom_markup {token : Token} (h : lexMarkup place cs = .ok (token, rest)) :
    ∃ place', lexFrom place ('<' :: cs) = .piece place token (lexFrom place' rest) := by
  rw [lexFrom_eq]
  simp only [ne_eq, not_true_eq_false, decide_false, Bool.false_eq_true, not_false_eq_true,
    List.takeWhile_cons_of_neg, List.dropWhile_cons_of_neg]
  refine ⟨place + 1 + byteLength cs - byteLength rest, ?_⟩
  show lexBehind place ('<' :: cs) = _
  rw [lexBehind, h]

/-- A start tag ends in a quote, or in the last character of its name: it is not empty. -/
theorem getLast?_startBody (hname : isName e.name) : e.startBody.getLast? ≠ some '/' := by
  obtain ⟨-, -, -, -, hchars⟩ := isName_chars hname
  unfold Element.startBody
  rw [List.getLast?_append]
  rcases List.eq_nil_or_concat e.attributes with hnone | ⟨front, entry, hsome⟩
  · rw [hnone, List.flatMap_nil, List.getLast?_nil, Option.none_or]
    intro h
    have hslash := hchars '/' (List.mem_of_getLast? h)
    exact absurd hslash (by decide)
  · have hquote : (printAttribute entry).getLast? = some '"' := by
      simp [printAttribute, List.getLast?_cons, List.getLast?_append]
    simp [hsome, hquote]

theorem lexMarkup_startBody (place : Nat) (rest : List Char) (hname : isName e.name)
    (hkeys : ∀ entry ∈ e.attributes, isName entry.1) :
    lexMarkup place (e.startBody ++ '>' :: rest) = .ok (.opening e.startBody false, rest) := by
  obtain ⟨first, more, hfirst, hstart, hchars⟩ := isName_chars hname
  have hcut := cutTag_startBody rest hname hkeys
  have hlast := getLast?_startBody hname
  have hplain := isNameStart_plain hstart
  have hhead : e.startBody ++ '>' :: rest =
      first :: (more ++ e.attributes.flatMap printAttribute ++ '>' :: rest) := by
    simp [Element.startBody, hfirst]
  rw [hhead] at hcut ⊢
  unfold lexMarkup
  split
  · simp_all
  · simp_all
  · simp_all
  · simp_all
  · rw [hcut]
    split
    · next h =>
      cases h
      split
      · next h => exact absurd h hlast
      · rfl
    · simp_all

theorem lexMarkup_endTag {name : String} (place : Nat) (rest : List Char) (hname : isName name) :
    lexMarkup place ('/' :: (name.toList ++ '>' :: rest)) = .ok (.closing name.toList, rest) := by
  obtain ⟨first, more, hfirst, hstart, hchars⟩ := isName_chars hname
  have hcut : cutTag none (name.toList ++ '>' :: rest) = some (name.toList, rest) := by
    rw [cutTag_plain (fun c hc => by simp [isNameChar_plain (hchars c hc)])]
    simp [cutTag]
  have hend : endName name.toList = name.toList := by
    have hspace : ∀ c ∈ name.toList, isSpace c = false :=
      fun c hc => (isNameChar_plain (hchars c hc)).1
    have hsome : name.toList.all isSpace = false := by
      rw [hfirst] at hspace ⊢
      simp [hspace first List.mem_cons_self]
    have hreverse : name.toList.reverse.dropWhile isSpace = name.toList.reverse := by
      rw [List.dropWhile_eq_self_iff]
      intro h
      rw [hspace _ (List.mem_reverse.mp (List.getElem_mem h))]
      decide
    simp [endName, hsome, hreverse]
  simp [lexMarkup, hcut, hend]

/-! ### Elements -/

namespace Progress

variable {p p' : Progress} {outer : List (List Char × Element)} {name : List Char}

/-- Children go into the element that is open, behind those that it has. -/
theorem attach_children (p : Progress) (outer : List (List Char × Element)) (name : List Char)
    (e : Element) (es : List Element) :
    es.foldlM attach { p with opened := (name, e) :: outer } =
      .ok { p with opened := (name, { e with children := e.children ++ es }) :: outer } := by
  induction es generalizing e with
  | nil =>
    cases e
    simp [pure, Except.pure]
  | cons child others ih =>
    show List.foldlM attach { p with
      opened := (name, { e with children := e.children ++ [child] }) :: outer } others = _
    rw [ih]
    simp

/-- A start tag opens its element. -/
theorem build_startTag (p : Progress) (place : Nat) (rest : List Char)
    (hname : isName e.name) (hkeys : ∀ entry ∈ e.attributes, isName entry.1)
    (hdistinct : (e.attributes.map (·.1)).Nodup) :
    ∃ place', p.build (lexFrom place (e.startTag ++ rest)) =
      build { p with opened := (e.name.toList, ⟨e.name, e.attributes, [], ""⟩) :: p.opened }
        (lexFrom place' rest) := by
  obtain ⟨place', h⟩ := lexFrom_markup (lexMarkup_startBody place rest hname hkeys)
  obtain ⟨htag, helement⟩ := Tag.toElement_startBody hname hkeys hdistinct
  have htext : e.startTag ++ rest = '<' :: (e.startBody ++ '>' :: rest) := by
    simp [Element.startTag]
  refine ⟨place', ?_⟩
  rw [htext, h]
  simp [build, add, helement, htag, bind, Except.bind]

/-- An end tag closes the element of its name. -/
theorem build_endTag (place : Nat) (rest : List Char) (hname : isName e.name)
    (hattach : attach { p with opened := outer } e = .ok p') :
    ∃ place', build { p with opened := (e.name.toList, e) :: outer }
        (lexFrom place (e.endTag ++ rest)) = p'.build (lexFrom place' rest) := by
  obtain ⟨place', h⟩ := lexFrom_markup (lexMarkup_endTag place rest hname)
  have htext : e.endTag ++ rest = '<' :: '/' :: (e.name.toList ++ '>' :: rest) := by
    simp [Element.endTag]
  refine ⟨place', ?_⟩
  rw [htext, h]
  simp [build, add, hattach, bind, Except.bind]

/-- Space before a tag, or at the end, is passed over. -/
theorem build_space {gap : List Char} (p : Progress) (place : Nat) (hgap : gap.all isSpace)
    (htail : AtTag tail) :
    ∃ place', p.build (lexFrom place (gap ++ tail)) = p.build (lexFrom place' tail) := by
  have hplain : '<' ∉ gap := fun h => absurd (List.all_eq_true.mp hgap _ h) (by decide)
  have hstrip : Text.strip isSpace gap = [] := by
    rw [List.all_eq_true] at hgap
    unfold Text.strip
    rw [List.dropWhile_eq_nil_iff.mpr hgap]
    rfl
  rw [lexFrom_run hplain htail, Lexed.addText, hstrip]
  exact ⟨_, rfl⟩

/-- The run of text behind a start tag is the text of the element. -/
theorem build_text {before after : List Char} {text : String} (p : Progress)
    (outer : List (List Char × Element)) (name : List Char) (place : Nat)
    (hbefore : before.all isSpace) (hafter : after.all isSpace) (htext : isTight text.toList)
    (he : e.text = "") (htail : AtTag tail) :
    ∃ place', build { p with opened := (name, e) :: outer }
        (lexFrom place (before ++ escapeAll text.toList ++ after ++ tail)) =
      build { p with opened := (name, { e with text }) :: outer } (lexFrom place' tail) := by
  have hplain : '<' ∉ before ++ escapeAll text.toList ++ after := by
    intro h
    rcases List.mem_append.mp h with h | h
    · rcases List.mem_append.mp h with h | h
      · exact absurd (List.all_eq_true.mp hbefore _ h) (by decide)
      · exact (mem_escapeAll h).1 rfl
    · exact absurd (List.all_eq_true.mp hafter _ h) (by decide)
  have hstrip := strip_around hbefore hafter (isTight_escapeAll htext)
  rw [lexFrom_run hplain htail, Lexed.addText, hstrip]
  refine ⟨place + byteLength (before ++ escapeAll text.toList ++ after), ?_⟩
  split
  · next hnone =>
    -- nothing is written for a text only if nothing is in it
    have hempty : text = "" := by
      have hread := Reference.expand_escapeAll text.toList
      rw [hnone] at hread
      exact String.toList_eq_nil_iff.mp (Except.ok.inj hread).symm
    cases e
    simp_all
  · next hsome =>
    simp [build, add, addText, Reference.expand_escapeAll, he, bind, Except.bind]

/-- Elements begin with a bracket, if there are any. -/
theorem atTag_written (hwritten : Written es cs) (htail : AtTag tail) : AtTag (cs ++ tail) := by
  cases hwritten with
  | nil => exact htail
  | cons => simp [AtTag, Element.startTag]

theorem atTag_endTag : AtTag (e.endTag ++ rest) := by
  simp [AtTag, Element.endTag]

/-- The pieces of the elements are taken in one after the other; behind them, the elements
are attached. -/
theorem build_written (place : Nat) (hwritten : Written es cs)
    (hprintable : ∀ e ∈ es, e.Printable)
    (htail : AtTag tail) (hattach : es.foldlM attach p = .ok p') :
    ∃ place', p.build (lexFrom place (cs ++ tail)) = p'.build (lexFrom place' tail) := by
  induction hwritten generalizing p p' place tail with
  | nil =>
    cases hattach
    exact ⟨place, rfl⟩
  | @cons e es before after inside gap rest hbefore hafter hgap hinside hrest ihinside ihrest =>
    obtain ⟨he, hes⟩ := List.forall_mem_cons.mp hprintable
    obtain ⟨hname, hkeys, hdistinct, htext, hchildren⟩ := he
    rw [List.foldlM_cons] at hattach
    obtain ⟨p₁, hfirst, hothers⟩ := Except.bind_ok hattach
    have hbehind : AtTag (rest ++ tail) := atTag_written hrest htail
    have hend : AtTag (e.endTag ++ (gap ++ (rest ++ tail))) := atTag_endTag
    obtain ⟨place₁, hopened⟩ := build_startTag p place
      (before ++ escapeAll e.text.toList ++ after ++
        (inside ++ (e.endTag ++ (gap ++ (rest ++ tail))))) hname hkeys hdistinct
    obtain ⟨place₂, hfilled⟩ := build_text (e := ⟨e.name, e.attributes, [], ""⟩) p p.opened
      e.name.toList place₁ hbefore hafter htext rfl (atTag_written hinside hend)
    obtain ⟨place₃, hinner⟩ := ihinside place₂ hchildren hend
      (attach_children p p.opened e.name.toList ⟨e.name, e.attributes, [], e.text⟩ e.children)
    obtain ⟨place₄, hclosed⟩ := build_endTag place₃ (gap ++ (rest ++ tail)) hname hfirst
    obtain ⟨place₅, hpassed⟩ := build_space p₁ place₄ hgap hbehind
    obtain ⟨place₆, hlater⟩ := ihrest place₅ hes htail hothers
    refine ⟨place₆, ?_⟩
    simp only [List.append_assoc] at hopened hfilled hinner hclosed hpassed hlater ⊢
    rw [hopened, hfilled, hinner]
    cases e
    exact hclosed.trans (hpassed.trans hlater)

end Progress

/-! ### Documents -/

namespace Element

mutual

theorem written_print {ds : List Char} :
    ∀ (e : Element) {es : List Element}, Written es ds → Written (e :: es) (e.print ++ ds)
  | ⟨name, attributes, children, text⟩, _, hrest => by
    have h := @Written.cons ⟨name, attributes, children, text⟩ _ [] [] _ [] _ rfl rfl rfl
      (written_printAll children) hrest
    simpa [print] using h

theorem written_printAll : ∀ es : List Element, Written es (printAll es)
  | [] => .nil
  | e :: rest => written_print e (written_printAll rest)

end

end Element

/-- Only a byte order mark is dropped from the start of a text. -/
theorem lex_eq (h : ∀ c ∈ cs.head?, c.toNat ≠ 0xFEFF) : lex (String.ofList cs) = lexFrom 0 cs := by
  unfold lex
  rw [String.toList_ofList]
  cases cs with
  | nil =>
    rw [lexFrom_eq]
    rfl
  | cons c rest => simp [h c rfl]

/-- Every document of a printable element is read as that element, whatever space is in it;
and there is one. -/
theorem parse_written (he : e.Printable) :
    e.IsDocument (String.ofList e.print) ∧ ∀ text, e.IsDocument text → parse text = .ok e := by
  refine ⟨⟨[], e.print ++ [], rfl, Element.written_print e .nil, by simp⟩, ?_⟩
  rintro text ⟨gap, cs, hgap, hwritten, rfl⟩
  have hnothing : AtTag [] := by simp [AtTag]
  have htag : AtTag (cs ++ []) := Progress.atTag_written hwritten hnothing
  have hattach : [e].foldlM Progress.attach {} = .ok { root := some e } := rfl
  obtain ⟨place, hspace⟩ := Progress.build_space {} 0 hgap htag
  obtain ⟨place', hbuild⟩ := Progress.build_written place hwritten (by simpa using he) hnothing
    hattach
  have hlex : lex (String.ofList (gap ++ cs)) = lexFrom 0 (gap ++ cs) := by
    refine lex_eq fun c hc hmark => ?_
    have hc : c = '<' ∨ isSpace c := by
      rw [List.append_nil] at htag
      cases gap with
      | nil => exact .inl (htag c hc)
      | cons d gap =>
        cases hc
        exact .inr (List.all_eq_true.mp hgap c List.mem_cons_self)
    rcases hc with rfl | hspace
    · exact absurd hmark (by decide)
    · simp only [isSpace, Bool.or_eq_true, decide_eq_true_eq] at hspace
      rcases hspace with ((rfl | rfl) | rfl) | rfl <;> exact absurd hmark (by decide)
  unfold parse
  rw [hlex, ← List.append_nil (gap ++ cs), List.append_assoc, hspace, hbuild, lexFrom_eq]
  rfl

/-- A field with markup in its label, and a description behind its text. -/
def noted : Element :=
  ⟨"field", [("name", "note"), ("label", "1 < 2 & \"x\" = 'y'")],
    [⟨"description", [], [], "a > b"⟩], "see & below"⟩

/-- It is written over several lines. -/
def notedText : String :=
  "\n<field name=\"note\" label=\"1 &lt; 2 &amp; &quot;x&quot; = &apos;y&apos;\">\n" ++
  "  see &amp; below\n  <description>a &gt; b</description>\n</field>\n"

theorem noted_parsed :
    noted.Printable ∧ noted.IsDocument notedText ∧ parse notedText = .ok noted := by
  have hdescription : Element.Printable ⟨"description", [], [], "a > b"⟩ :=
    .intro (by decide) (by simp) (by simp) (by decide) (by simp)
  have hnoted : noted.Printable :=
    .intro (by decide) (by decide) (by decide) (by decide) (by simpa [noted] using hdescription)
  have hinside : Written noted.children _ :=
    @Written.cons _ _ [] [] _ ['\n'] _ rfl rfl rfl .nil .nil
  have hwritten : Written [noted] _ :=
    @Written.cons _ _ ['\n', ' ', ' '] ['\n', ' ', ' '] _ ['\n'] _ rfl rfl rfl hinside .nil
  have hdocument : noted.IsDocument notedText := ⟨['\n'], _, rfl, hwritten, by decide +kernel⟩
  exact ⟨hnoted, hdocument, (parse_written hnoted).2 _ hdocument⟩

end EntitySchema.Xml
