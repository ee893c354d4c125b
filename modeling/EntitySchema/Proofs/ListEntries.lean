import EntitySchema.Text.Listing
import Mathlib.Data.List.DropRight

/-! Entries of lists that are written with commas. What is read from a text is never empty,
has no comma in it and no white space at either end, and entries of this kind are read as
they were written. Where a comma stands between two texts, what is read from them is what
is read from the one and then from the other. -/

namespace EntitySchema.Text

variable {s entry : String} {sep : Char} {p : Char → Bool} {cs piece : List Char}

/-! ### What is left of a text -/

theorem strip_eq (p : Char → Bool) (cs : List Char) :
    strip p cs = (cs.dropWhile p).rdropWhile p := rfl

theorem strip_subset (p : Char → Bool) (cs : List Char) : strip p cs ⊆ cs :=
  List.Subset.trans (List.rdropWhile_prefix p _).subset (List.dropWhile_suffix p).subset

theorem head_dropWhile (p : Char → Bool) (cs : List Char) :
    ∀ c ∈ (cs.dropWhile p).head?, p c = false := by
  intro c hc
  have hstays := List.head?_dropWhile_not p cs
  rw [hc] at hstays
  exact hstays

/-- A text that was stripped begins with a character that stays: what is cut from its end
leaves the beginning alone. -/
theorem strip_front : ∀ c ∈ (strip p cs).head?, p c = false := by
  intro c hc
  obtain ⟨cut, hcut⟩ : strip p cs <+: cs.dropWhile p := List.rdropWhile_prefix p _
  refine head_dropWhile p cs c ?_
  rw [← hcut, List.head?_append, hc]
  rfl

/-- It ends in one, too. -/
theorem strip_back : ∀ c ∈ (strip p cs).getLast?, p c = false := by
  unfold strip
  rw [List.getLast?_reverse]
  exact head_dropWhile p _

/-- Nothing is cut from a text that begins and ends in characters that stay. -/
theorem strip_of_ends (hfront : ∀ c ∈ cs.head?, p c = false)
    (hback : ∀ c ∈ cs.getLast?, p c = false) : strip p cs = cs := by
  have hdrop : cs.dropWhile p = cs := by
    cases cs with
    | nil => rfl
    | cons c rest => exact List.dropWhile_cons_of_neg (by simp [hfront c rfl])
  rw [strip_eq, hdrop, List.rdropWhile_eq_self_iff]
  intro hne
  simp [hback _ (List.getLast?_eq_some_getLast hne)]

/-! ### What stands between commas -/

theorem pieces_eq_splitOn (sep : Char) (cs : List Char) : pieces sep cs = cs.splitOn sep := by
  induction cs with
  | nil => rfl
  | cons c rest ih =>
    rw [pieces, List.splitOn_cons_eq_if_modifyHead, ih]
    simp only [beq_iff_eq]
    congr 1
    cases hrest : rest.splitOn sep with
    | nil => exact absurd hrest (List.splitOn_ne_nil sep rest)
    | cons piece more => rfl

/-- No piece has the separator in it. -/
theorem not_mem_of_mem_pieces (h : piece ∈ pieces sep cs) : sep ∉ piece := by
  fun_induction pieces sep cs generalizing piece with
  | case1 =>
    rw [List.mem_singleton.mp h]
    exact List.not_mem_nil
  | case2 rest ih =>
    rcases List.mem_cons.mp h with rfl | h
    · exact List.not_mem_nil
    · exact ih h
  | case3 c rest hne hnone ih =>
    rw [List.mem_singleton.mp h, List.mem_singleton]
    exact Ne.symm hne
  | case4 c rest hne first more hsome ih =>
    rcases List.mem_cons.mp h with rfl | h
    · rw [List.mem_cons, not_or]
      exact ⟨Ne.symm hne, ih (hsome ▸ List.mem_cons_self)⟩
    · exact ih (hsome ▸ List.mem_cons_of_mem _ h)

/-! ### Entries -/

/-- Not blank, and without white space at either end. -/
def IsTrimmed (s : String) : Prop := trim s = s ∧ isBlank s = false

/-- What can be an entry of a list: a comma would end it, and white space at its ends
would not be read. -/
structure IsEntry (s : String) : Prop where
  nonempty : s ≠ ""
  unbroken : ',' ∉ s.toList
  front : ∀ c ∈ s.toList.head?, isSpace c = false
  back : ∀ c ∈ s.toList.getLast?, isSpace c = false

theorem isEntry_iff : IsEntry s ↔ s ≠ "" ∧ ',' ∉ s.toList ∧
    (∀ c ∈ s.toList.head?, isSpace c = false) ∧ ∀ c ∈ s.toList.getLast?, isSpace c = false :=
  ⟨fun ⟨a, b, c, d⟩ => ⟨a, b, c, d⟩, fun ⟨a, b, c, d⟩ => ⟨a, b, c, d⟩⟩

instance : Decidable (IsEntry s) :=
  -- only the character at an end is tried, if there is one, and not all characters there are
  have : ∀ end? : Option Char, Decidable (∀ c ∈ end?, isSpace c = false) :=
    fun end? => Option.decidableForallMem end?
  decidable_of_iff' _ isEntry_iff

theorem IsEntry.strip (h : IsEntry s) : strip isSpace s.toList = s.toList :=
  strip_of_ends h.front h.back

theorem IsEntry.trimmed (h : IsEntry s) : IsTrimmed s := by
  constructor
  · rw [trim, h.strip, String.ofList_toList]
  · obtain ⟨c, rest, hs⟩ := List.exists_cons_of_ne_nil (mt String.toList_eq_nil_iff.mp h.nonempty)
    have hc : isSpace c = false := h.front c (by rw [hs]; rfl)
    simp [isBlank, hs, hc]

theorem mem_splitList : entry ∈ splitList s ↔ ∃ piece ∈ pieces ',' s.toList,
    strip isSpace piece ≠ [] ∧ String.ofList (strip isSpace piece) = entry := by
  simp [splitList, List.mem_filterMap]

/-- Whatever the text is, its entries can be entries. -/
theorem isEntry_of_mem_splitList (h : entry ∈ splitList s) : IsEntry entry := by
  obtain ⟨piece, hpiece, hne, rfl⟩ := mem_splitList.mp h
  rw [isEntry_iff, String.toList_ofList]
  exact ⟨by simpa using hne,
    fun hcomma => not_mem_of_mem_pieces hpiece (strip_subset isSpace piece hcomma),
    strip_front, strip_back⟩

/-- An entry alone is a list of one. -/
theorem splitList_of_isEntry (h : IsEntry s) : splitList s = [s] := by
  unfold splitList
  rw [pieces_eq_splitOn, List.splitOn_eq_singleton h.unbroken]
  simp [h.strip, h.nonempty]

/-- A comma parts what is read. -/
theorem splitList_append (s t : String) :
    splitList (s ++ "," ++ t) = splitList s ++ splitList t := by
  have hparts : (s ++ "," ++ t).toList = s.toList ++ ',' :: t.toList := by simp
  unfold splitList
  rw [hparts]
  simp only [pieces_eq_splitOn, List.splitOn_append_cons_self, List.map_append,
    List.filterMap_append]

theorem joinList_cons {entries : List String} (h : entries ≠ []) (entry : String) :
    joinList (entry :: entries) = entry ++ "," ++ joinList entries :=
  String.intercalate_cons_of_ne_nil h

theorem splitList_joinList : ∀ {entries : List String}, (∀ entry ∈ entries, IsEntry entry) →
    splitList (joinList entries) = entries
  | [], _ => by decide
  | [entry], h => by
    rw [joinList, String.intercalate_singleton, splitList_of_isEntry (h entry List.mem_cons_self)]
  | entry :: next :: rest, h => by
    obtain ⟨hentry, hrest⟩ := List.forall_mem_cons.mp h
    rw [joinList_cons (List.cons_ne_nil next rest), splitList_append, splitList_of_isEntry hentry,
      splitList_joinList hrest]
    rfl

/-- The lists that are read as they are written are those of entries, and these are the lists
that are read from a text. What is read, written with commas and read again, stays as it
is, and a comma parts what is read before it from what is read behind it. -/
theorem splitList_inverts_joinList :
    (∀ entries : List String,
      splitList (joinList entries) = entries ↔ ∀ entry ∈ entries, IsEntry entry) ∧
    (∀ s : String, (∀ entry ∈ splitList s, IsEntry entry) ∧
      splitList (joinList (splitList s)) = splitList s) ∧
    ∀ s t : String, splitList (s ++ "," ++ t) = splitList s ++ splitList t := by
  have hread : ∀ s, ∀ entry ∈ splitList s, IsEntry entry := fun s entry => isEntry_of_mem_splitList
  refine ⟨fun entries => ⟨fun h => ?_, splitList_joinList⟩, fun s => ?_, splitList_append⟩
  · rw [← h]
    exact hread (joinList entries)
  · exact ⟨hread s, splitList_joinList (hread s)⟩

/-- White space inside an entry stays, and a zero-width space is none. -/
theorem colours_split : (∀ entry ∈ ["red", "dark\u3000blue", "\u200bé"], IsEntry entry) ∧
    splitList (joinList ["red", "dark\u3000blue", "\u200bé"]) =
      ["red", "dark\u3000blue", "\u200bé"] := by
  have hentries : ∀ entry ∈ ["red", "dark\u3000blue", "\u200bé"], IsEntry entry := by decide
  exact ⟨hentries, (splitList_inverts_joinList.1 _).mpr hentries⟩

example : splitList " ,red\u2003,, dark\u3000blue ," = ["red", "dark\u3000blue"] := by decide

end EntitySchema.Text
