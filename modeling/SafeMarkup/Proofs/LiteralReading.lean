import SafeMarkup.Js.Literal
import SafeMarkup.Proofs.JsLiteral
import SafeMarkup.Proofs.JsUnescape

/-!
# JS literals are read back

What a literal is written as is read as that literal, up to where it ends
(`readsBack`). So no text is that of two literals. What ends a string is found by the forms
of escaped characters, what ends a number by what comes after it (`StopsAtom`), and what ends lists
and objects by induction on the literal.

Outside of its strings a literal has no character with a meaning in markup or in the code around it
(`harmless_write`).
-/

namespace SafeMarkup.Js

variable {c d : Char} {s t rest : Text}

/-! ### Strings -/

/-- The text is a part of the string that it stands in. -/
def InString (t : Text) : Prop :=
  ∀ rest, splitString false (t ++ rest)
    = (splitString false rest).map fun s => (t ++ s.1, s.2)

theorem inString_nil : InString [] := by
  intro rest
  simp

/-- Two texts that stand in a string do so one after the other. -/
theorem InString.append (hs : InString s) (ht : InString t) : InString (s ++ t) := by
  intro rest
  rw [List.append_assoc, hs, ht, Option.map_map]
  congr 1
  funext u
  simp

/-- A character without a meaning in strings stands there as it is. -/
theorem inString_plain (hquote : c ≠ '\'') (hback : c ≠ '\\') (hline : isLineEnd c = false) :
    InString [c] := by
  intro rest
  have hescape : (c == '\\') = false := beq_eq_false_iff_ne.mpr hback
  simp [splitString, hquote, hline, hescape]

theorem inString_escape (c : Char) : InString ['\\', c] := by
  intro rest
  simp [splitString, isLineEnd, Function.comp_def]

/-- A text without special characters stands in a string. -/
theorem inString_of_isSpecial (ht : ∀ c ∈ t, isSpecial c = false ∧ c ≠ '\\') : InString t := by
  induction t with
  | nil => exact inString_nil
  | cons c t ih =>
    obtain ⟨⟨hspecial, hback⟩, ht⟩ := List.forall_mem_cons.mp ht
    have hquote : c ≠ '\'' := fun e => by rw [e] at hspecial; exact absurd hspecial (by decide)
    have hline : isLineEnd c = false := by
      refine Bool.eq_false_iff.mpr fun h => ?_
      simp only [isLineEnd, Bool.or_eq_true, beq_iff_eq] at h
      rcases h with ((rfl | rfl) | rfl) | rfl <;> exact absurd hspecial (by decide)
    exact (inString_plain hquote hback hline).append (ih ht)

/-- However a character is written, it ends no string. -/
theorem Form.inString (h : Form c t) : InString t := by
  cases h with
  | self hspecial hback =>
    exact inString_of_isSpecial (by simpa using ⟨hspecial, hback⟩)
  | sign => exact inString_escape c
  | letter l => exact inString_escape l
  | number x digits _ hdigits =>
    have hhex : ∀ d ∈ digits, isHexDigit d = true := List.all_eq_true.mp hdigits
    exact (inString_escape x).append (inString_of_isSpecial fun d hd =>
      ⟨isSpecial_of_isHexDigit (hhex d hd), ne_of_class (hhex d hd) (by decide)⟩)

/-- An escaped text does. -/
theorem inString_escapeString (s : Text) : InString (escapeString s) := by
  induction s with
  | nil => exact inString_nil
  | cons c s ih =>
    rw [escapeString, List.flatMap_cons]
    exact (form_escapeStringChar c).inString.append ih

theorem splitString_escapeString (s rest : Text) :
    splitString false (escapeString s ++ '\'' :: rest) = some (escapeString s, rest) := by
  rw [inString_escapeString, splitString, if_pos rfl]
  simp

/-- **A string is read up to its quote**, and its value is what was escaped. -/
theorem readString_stringLiteral (s rest : Text) :
    readString (stringLiteral s ++ rest) = some (s, rest) := by
  have hsplit := splitString_escapeString s rest
  have hvalue : unescape (escapeString s) = s := by
    have h := unescape_escapeString_append s []
    rwa [List.append_nil, show unescape [] = [] by rw [unescape, readWith_nil]; rfl,
      List.append_nil] at h
  simp [stringLiteral, readString, hsplit, hvalue]

/-! ### Numbers -/

/-- A decimal numeral is made of characters of numerals. -/
theorem isNumeral_of_isDecimal (h : isDecimal t = true) : t ≠ [] ∧ ∀ c ∈ t, isNumeral c = true := by
  have ht : t.takeWhile Char.isDigit ++ t.dropWhile Char.isDigit = t :=
    List.takeWhile_append_dropWhile
  have hwhole : ∀ c ∈ t.takeWhile Char.isDigit, isNumeral c = true :=
    fun c hc => isNumeral_of_isDigit (List.mem_takeWhile_imp hc)
  -- with or without a point; a numeral without digits is none
  unfold isDecimal at h
  split at h
  · cases h
  · next htake hdrop =>
    rw [hdrop, List.append_nil] at ht
    rw [← ht]
    exact ⟨by simp [htake], hwhole⟩
  · next c fraction htake hdrop =>
    simp only [Bool.and_eq_true, beq_iff_eq, List.all_eq_true] at h
    obtain ⟨⟨rfl, -⟩, hfraction⟩ := h
    rw [← ht]
    refine ⟨by simp [htake], fun c hc => ?_⟩
    rw [hdrop] at hc
    rcases List.mem_append.mp hc with hc | hc
    · exact hwhole c hc
    rcases List.mem_cons.mp hc with rfl | hc
    · rfl
    · exact isNumeral_of_isDigit (hfraction c hc)

theorem isNumeral_of_isMagnitude (h : isMagnitude t = true) :
    t ≠ [] ∧ ∀ c ∈ t, isNumeral c = true := by
  simp only [isMagnitude, Bool.or_eq_true, beq_iff_eq] at h
  rcases h with rfl | h
  · exact ⟨by decide, List.all_eq_true.mp rfl⟩
  · exact isNumeral_of_isDecimal h

/-- A number has a character, and all its characters are those of numerals. -/
theorem isNumeral_of_isNumber (h : isNumber t = true) : t ≠ [] ∧ ∀ c ∈ t, isNumeral c = true := by
  unfold isNumber at h
  split at h
  · refine ⟨by simp, List.forall_mem_cons.mpr ⟨rfl, (isNumeral_of_isMagnitude h).2⟩⟩
  · simp only [Bool.or_eq_true, beq_iff_eq] at h
    rcases h with rfl | h
    · exact ⟨by decide, List.all_eq_true.mp rfl⟩
    · exact isNumeral_of_isMagnitude h

/-! ### What has neither quotes nor brackets -/

/-- What has neither quotes nor brackets ends before the text. -/
def StopsAtom (t : Text) : Prop := ∀ c ∈ t.head?, endsAtom c = true

theorem stopsAtom_nil : StopsAtom [] := by simp [StopsAtom]

theorem stopsAtom_cons (hc : endsAtom c = true) (t : Text) : StopsAtom (c :: t) := by
  simpa [StopsAtom] using hc

/-- An atom is read up to where it ends. -/
theorem readAtom_append (ht : ∀ c ∈ t, endsAtom c = false) (hrest : StopsAtom rest) :
    readAtom (t ++ rest) = (atom? t).map (·, rest) := by
  have hall : ∀ c ∈ t, (!endsAtom c) = true := by simpa using ht
  have htake : rest.takeWhile (!endsAtom ·) = [] := by
    cases rest with
    | nil => rfl
    | cons c rest => simp [hrest c rfl]
  have hdrop : rest.dropWhile (!endsAtom ·) = rest := by
    cases rest with
    | nil => rfl
    | cons c rest => simp [hrest c rfl]
  rw [readAtom, List.takeWhile_append_of_pos hall, List.dropWhile_append_of_pos hall, htake, hdrop,
    List.append_nil]

/-- What is made up of words and numbers starts neither a string nor a list or object. -/
theorem readLiteral_atom {l : Literal} (hne : t ≠ []) (ht : ∀ c ∈ t, isNumeral c = true ∨ c = ' ')
    (hrest : StopsAtom rest) (hatom : atom? t = some l) {depth : Nat} (hdepth : depth ≠ 0) :
    readLiteral depth (t ++ rest) = some (l, rest) := by
  -- what ends an atom is in no numeral
  have hother {c d : Char} (hc : c ∈ t) (hd : isNumeral d = false ∧ d ≠ ' ') : c ≠ d := by
    rcases ht c hc with h | rfl
    · exact ne_of_class h hd.1
    · exact hd.2.symm
  have hends : ∀ c ∈ t, endsAtom c = false := by
    intro c hc
    simp [endsAtom, hother hc (d := ',') (by decide), hother hc (d := ']') (by decide),
      hother hc (d := '\x7d') (by decide)]
  obtain ⟨depth, rfl⟩ := Nat.exists_eq_succ_of_ne_zero hdepth
  rcases t with _ | ⟨c, t⟩
  · exact absurd rfl hne
  have hopens {d : Char} (hd : isNumeral d = false ∧ d ≠ ' ') : c ≠ d :=
    hother List.mem_cons_self hd
  -- the first character opens none of the other literals
  have hatom' : readLiteral (depth + 1) (c :: t ++ rest) = readAtom (c :: t ++ rest) := by
    rw [readLiteral]
    all_goals exact fun _ heq => hopens (by decide) (List.cons.inj heq).1
  rw [hatom', readAtom_append hends hrest, hatom]
  rfl

theorem readNumber_numeral (n : Numeral) : readNumber n.text = some (.number n) := by
  rw [readNumber, dif_pos n.valid]

/-- A number is read with the space before it and without it. -/
theorem atom?_signedLiteral (n : Numeral) (negative : Bool) :
    atom? (signedLiteral negative n.text) = some (.number n) := by
  cases negative with
  | true => exact readNumber_numeral n
  | false =>
    -- no word is a number, and no number starts with a space
    have hword {t : Text} (ht : isNumber t = false) : n.text ≠ t := by
      intro heq
      rw [← heq, n.valid] at ht
      cases ht
    rw [signedLiteral, if_neg (by simp), atom?, if_neg (hword (by decide)),
      if_neg (hword (by decide)), if_neg (hword (by decide)), readNumber_numeral]
    intro t heq
    have hspace : isNumeral ' ' = true := (isNumeral_of_isNumber n.valid).2 ' ' (by simp [heq])
    exact absurd hspace (by decide)

/-! ### Commas -/

theorem commaSeparated_cons_cons (s t : Text) (items : List Text) :
    Text.commaSeparated (s :: t :: items) = s ++ ',' :: Text.commaSeparated (t :: items) := by
  simp [Text.commaSeparated, List.intercalate_cons_cons]

/-- No item is longer than the list of items. -/
theorem length_le_commaSeparated {items : List Text} (h : t ∈ items) :
    t.length ≤ (Text.commaSeparated items).length := by
  induction items with
  | nil => cases h
  | cons s items ih =>
    rcases items with _ | ⟨s', items⟩
    · simp [List.mem_singleton.mp h, Text.commaSeparated]
    · rw [commaSeparated_cons_cons, List.length_append, List.length_cons]
      rcases List.mem_cons.mp h with rfl | h
      · omega
      · have := ih h
        omega

/-- There are no more items than characters, but for one. -/
theorem length_items_le (items : List Text) :
    items.length ≤ (Text.commaSeparated items).length + 1 := by
  induction items with
  | nil => exact Nat.zero_le _
  | cons s items ih =>
    rcases items with _ | ⟨s', items⟩
    · simp
    · simp only [commaSeparated_cons_cons, List.length_append, List.length_cons] at ih ⊢
      omega

/-! ### Lists and objects -/

section

variable {α : Type} {read : Text → Option (α × Text)} {write : α → Text} {close : Char}

/-- What is read piece by piece is read as a whole. -/
theorem readSeparated_write (hclose : endsAtom close = true) (hcomma : close ≠ ',')
    {items : List α}
    (hread : ∀ item ∈ items, ∀ rest, StopsAtom rest → read (write item ++ rest) = some (item, rest))
    (hne : items ≠ []) {bound : Nat} (hbound : items.length ≤ bound) (rest : Text) :
    readSeparated read close bound
      (Text.commaSeparated (items.map write) ++ close :: rest) = some (items, rest) := by
  induction items generalizing bound with
  | nil => exact absurd rfl hne
  | cons item items ih =>
    obtain ⟨hitem, hitems⟩ := List.forall_mem_cons.mp hread
    cases bound with
    | zero => simp at hbound
    | succ bound =>
      -- the last item is followed by the bracket, every other one by a comma
      rcases items with _ | ⟨item', items⟩
      · have hone := hitem (close :: rest) (stopsAtom_cons hclose rest)
        simp [Text.commaSeparated, readSeparated, hone]
      · have hone := hitem (',' :: (Text.commaSeparated (write item' :: items.map write)
          ++ close :: rest)) (stopsAtom_cons rfl _)
        have hothers := ih hitems (by simp) (Nat.le_of_succ_le_succ hbound)
        rw [List.map_cons] at hothers
        rw [List.map_cons, List.map_cons, commaSeparated_cons_cons, List.append_assoc,
          List.cons_append, readSeparated, hone]
        simp [hcomma.symm, hothers]

/-- If items can be read back, whatever comes next, so can a list of them between brackets. An item
must not look like the bracket that closes the list. -/
theorem readBrackets_write (hclose : endsAtom close = true) (hcomma : close ≠ ',')
    {items : List α}
    (hread : ∀ item ∈ items, ∀ rest, StopsAtom rest → read (write item ++ rest) = some (item, rest))
    (hfirst : ∀ item ∈ items, ∃ c t, write item = c :: t ∧ c ≠ close) (rest : Text) :
    readBrackets read close (Text.commaSeparated (items.map write) ++ close :: rest)
      = some (items, rest) := by
  rcases items with _ | ⟨item, items⟩
  · simp [Text.commaSeparated, readBrackets]
  · obtain ⟨c, t, hwrite, hc⟩ := hfirst item List.mem_cons_self
    have hstart : ∃ u, Text.commaSeparated ((item :: items).map write) = c :: u := by
      rcases items with _ | ⟨item', items⟩
      · exact ⟨t, by simp [Text.commaSeparated, hwrite]⟩
      · exact ⟨_, by rw [List.map_cons, List.map_cons, commaSeparated_cons_cons, hwrite]; rfl⟩
    obtain ⟨u, hu⟩ := hstart
    -- every item takes at least a comma or the closing bracket
    have hbound : (item :: items).length ≤ (u ++ close :: rest).length + 1 := by
      have hle := length_items_le ((item :: items).map write)
      rw [hu, List.length_map] at hle
      simp only [List.length_append, List.length_cons] at hle ⊢
      omega
    have hall := readSeparated_write hclose hcomma hread (by simp) hbound rest
    rw [hu] at hall ⊢
    rw [List.cons_append, readBrackets, if_neg hc]
    exact hall

end

/-! ### Literals -/

/-- Reading what the literal is written as gives the literal, whatever ends it. -/
def ReadsBack (l : Literal) : Prop :=
  ∀ depth rest, StopsAtom rest → l.write.length ≤ depth →
    readLiteral depth (l.write ++ rest) = some (l, rest)

/-- No literal starts like something that ends one. -/
theorem exists_cons_write (l : Literal) : ∃ c t, l.write = c :: t ∧ endsAtom c = false := by
  cases l with
  | null => exact ⟨'n', _, rfl, rfl⟩
  | bool b => cases b <;> exact ⟨_, _, rfl, rfl⟩
  | number n =>
    obtain ⟨hne, hall⟩ := isNumeral_of_isNumber n.valid
    obtain ⟨c, t, ht⟩ := List.exists_cons_of_ne_nil hne
    have hc : isNumeral c = true := hall c (by simp [ht])
    have hends : endsAtom c = false := by
      simp [endsAtom, ne_of_class hc (d := ',') rfl, ne_of_class hc (d := ']') rfl,
        ne_of_class hc (d := '\x7d') rfl]
    -- a negative number starts with the space before its sign
    cases hsign : n.isNegative with
    | true => exact ⟨' ', n.text, by rw [Literal.write, hsign]; rfl, rfl⟩
    | false => exact ⟨c, t, by rw [Literal.write, hsign, ← ht]; rfl, hends⟩
  | string t => exact ⟨'\'', _, rfl, rfl⟩
  | list items => exact ⟨'[', _, rfl, rfl⟩
  | object fields => exact ⟨'\x7b', _, rfl, rfl⟩

/-- An atom reads back that is known by its text. -/
theorem readsBack_atom {l : Literal} (ht : ∀ c ∈ l.write, isNumeral c = true ∨ c = ' ')
    (hatom : atom? l.write = some l) : ReadsBack l := by
  intro depth rest hrest hdepth
  obtain ⟨c, t, hwrite, -⟩ := exists_cons_write l
  rw [hwrite] at hdepth
  exact readLiteral_atom (by simp [hwrite]) ht hrest hatom
    (Nat.ne_of_gt (Nat.lt_of_lt_of_le (by simp) hdepth))

/-- A number reads back. -/
theorem readsBack_number (n : Numeral) : ReadsBack (.number n) := by
  refine readsBack_atom (fun c hc => ?_) (atom?_signedLiteral n n.isNegative)
  have hall := (isNumeral_of_isNumber n.valid).2
  rw [Literal.write, signedLiteral] at hc
  split at hc
  · exact (List.mem_cons.mp hc).symm.imp (hall c) id
  · exact .inl (hall c hc)

/-- A string reads back. -/
theorem readsBack_string (t : Text) : ReadsBack (.string t) := by
  intro depth rest hrest hdepth
  cases depth with
  | zero => simp [Literal.write, stringLiteral] at hdepth
  | succ depth =>
    have hread := readString_stringLiteral t rest
    rw [Literal.write]
    simp only [stringLiteral, List.append_assoc, List.cons_append, List.nil_append] at hread ⊢
    rw [readLiteral, hread]
    rfl

/-- A list reads back if its items do. -/
theorem readsBack_list {items : List Literal} (h : ∀ item ∈ items, ReadsBack item) :
    ReadsBack (.list items) := by
  intro depth rest hrest hdepth
  rw [write_list] at hdepth ⊢
  cases depth with
  | zero => simp at hdepth
  | succ depth =>
    -- an item is shorter than the list, so it needs less depth
    have hread : ∀ item ∈ items, ∀ rest, StopsAtom rest →
        readLiteral depth (item.write ++ rest) = some (item, rest) := by
      intro item hitem rest hrest
      refine h item hitem depth rest hrest ?_
      have hle := length_le_commaSeparated (List.mem_map_of_mem hitem : item.write ∈ _)
      simp only [List.length_append, List.length_singleton] at hdepth
      omega
    have hfirst : ∀ item ∈ items, ∃ c t, item.write = c :: t ∧ c ≠ ']' := by
      intro item _
      obtain ⟨c, t, hwrite, hc⟩ := exists_cons_write item
      exact ⟨c, t, hwrite, (ne_of_class rfl hc).symm⟩
    have hitems := readBrackets_write rfl (by decide) hread hfirst rest
    simp only [List.append_assoc, List.cons_append, List.nil_append]
    rw [readLiteral, hitems]
    rfl

/-- A field reads back if its value does. -/
theorem readField_writeField {read : Text → Option (Literal × Text)} {field : Text × Literal}
    (hread : read (field.2.write ++ rest) = some (field.2, rest)) :
    readField read (writeField field ++ rest) = some (field, rest) := by
  have hname := readString_stringLiteral field.1 (':' :: (field.2.write ++ rest))
  simp [writeField, fieldLiteral, readField, hname, hread]

/-- An object reads back if the values of its fields do. -/
theorem readsBack_object {fields : List (Text × Literal)}
    (h : ∀ field ∈ fields, ReadsBack field.2) : ReadsBack (.object fields) := by
  intro depth rest hrest hdepth
  rw [write_object] at hdepth ⊢
  -- the depth bounds the recursion, and the text is longer than the depth that it needs
  cases depth with
  | zero => simp at hdepth
  | succ depth =>
    have hread : ∀ field ∈ fields, ∀ rest, StopsAtom rest →
        readField (readLiteral depth) (writeField field ++ rest) = some (field, rest) := by
      intro field hfield rest hrest
      refine readField_writeField (h field hfield depth rest hrest ?_)
      have hle := length_le_commaSeparated (List.mem_map_of_mem hfield : writeField field ∈ _)
      simp only [List.length_append, List.length_singleton, writeField, fieldLiteral] at hle hdepth
      omega
    -- a field starts with a quote, so it is not taken for the closing brace
    have hfirst : ∀ field ∈ fields, ∃ c t, writeField field = c :: t ∧ c ≠ '\x7d' :=
      fun _ _ => ⟨'\'', _, rfl, by decide⟩
    have hfields := readBrackets_write rfl (by decide) hread hfirst rest
    simp only [List.append_assoc, List.cons_append, List.nil_append]
    rw [readLiteral, hfields]
    rfl

/-- **What a literal is written as is read as the literal.** -/
theorem readsBack (l : Literal) : ReadsBack l := by
  induction l using Literal.inductionOn with
  | null => exact readsBack_atom (fun c hc => .inl (List.all_eq_true.mp rfl c hc)) rfl
  | bool b =>
    cases b <;> exact readsBack_atom (fun c hc => .inl (List.all_eq_true.mp rfl c hc)) rfl
  | number n => exact readsBack_number n
  | string t => exact readsBack_string t
  | list items ih => exact readsBack_list ih
  | object fields ih => exact readsBack_object ih

theorem parse_write (l : Literal) : Literal.parse l.write = some l := by
  have hread := readsBack l l.write.length [] stopsAtom_nil (Nat.le_refl _)
  rw [List.append_nil] at hread
  rw [Literal.parse, hread]

/-- **No two literals are written in the same way.** -/
theorem write_injective : Function.Injective Literal.write := by
  intro l l' heq
  have hparse := parse_write l
  rw [heq, parse_write] at hparse
  exact (Option.some.inj hparse).symm

/-! ### Outside of strings -/

/-- Has `c` no meaning in markup, and none in the code around a literal? -/
def isHarmless (c : Char) : Bool :=
  c != '/' && c != '<' && c != '>' && c != '&' && c != '\\' && !isLineEnd c

/-- Outside of its strings the text has no harmful character, and no string goes on after it. -/
def Harmless (t : Text) : Prop :=
  ∀ rest, ∃ own, outsideStrings (t ++ rest) = own ++ outsideStrings rest
    ∧ ∀ c ∈ own, isHarmless c = true

theorem harmless_nil : Harmless [] := fun _ => ⟨[], rfl, by simp⟩

/-- Two harmless texts, one after the other, are harmless. -/
theorem Harmless.append (hs : Harmless s) (ht : Harmless t) : Harmless (s ++ t) := by
  intro rest
  obtain ⟨a, ha, hall⟩ := hs (t ++ rest)
  obtain ⟨b, hb, hall'⟩ := ht rest
  refine ⟨a ++ b, by rw [List.append_assoc, ha, hb, List.append_assoc], fun c hc => ?_⟩
  exact (List.mem_append.mp hc).elim (hall c) (hall' c)

theorem harmless_char (hc : isHarmless c = true) (hquote : c ≠ '\'') : Harmless [c] := by
  intro rest
  exact ⟨[c], by simp [outsideStrings, hquote], by simpa using hc⟩

/-- Numerals are harmless. -/
theorem harmless_of_isNumeral (ht : ∀ c ∈ t, isNumeral c = true) : Harmless t := by
  induction t with
  | nil => exact harmless_nil
  | cons c t ih =>
    obtain ⟨hc, ht⟩ := List.forall_mem_cons.mp ht
    have hne {d : Char} (hd : isNumeral d = false) : c ≠ d := ne_of_class hc hd
    have hharmless : isHarmless c = true := by
      simp only [isHarmless, isLineEnd, Bool.and_eq_true, Bool.not_eq_true',
        Bool.or_eq_false_iff, bne_iff_ne, beq_eq_false_iff_ne]
      exact ⟨⟨⟨⟨⟨hne rfl, hne rfl⟩, hne rfl⟩, hne rfl⟩, hne rfl⟩,
        ⟨⟨hne rfl, hne rfl⟩, hne rfl⟩, hne rfl⟩
    exact (harmless_char hharmless (hne rfl)).append (ih ht)

/-- What is outside of strings after a string is what is outside of strings after its closing quote.
-/
theorem afterString_of_splitString {escaped : Bool} {body : Text}
    (h : splitString escaped t = some (body, rest)) :
    afterString escaped t = outsideStrings rest := by
  -- on the text, character by character, with the escape as the state
  induction t generalizing escaped body with
  | nil => cases escaped <;> cases h
  | cons c t ih =>
    cases escaped with
    | true =>
      obtain ⟨⟨body', _⟩, hsplit, heq⟩ := Option.map_eq_some_iff.mp h
      obtain ⟨-, rfl⟩ := Prod.mk.inj heq
      exact ih hsplit
    | false =>
      rw [splitString] at h
      rw [afterString]
      -- a quote ends the string for both, and all other characters are passed by both
      by_cases hquote : c = '\''
      · rw [if_pos hquote] at h ⊢
        rw [(Prod.mk.inj (Option.some.inj h)).2]
      rw [if_neg hquote] at h ⊢
      split at h
      · cases h
      · obtain ⟨⟨body', _⟩, hsplit, heq⟩ := Option.map_eq_some_iff.mp h
        obtain ⟨-, rfl⟩ := Prod.mk.inj heq
        exact ih hsplit

/-- A string is over at its quote. -/
theorem harmless_stringLiteral (t : Text) : Harmless (stringLiteral t) := by
  intro rest
  refine ⟨[], ?_, by simp⟩
  have hsplit := splitString_escapeString t rest
  simp only [stringLiteral, List.append_assoc, List.cons_append, List.nil_append]
  rw [outsideStrings, if_pos rfl, afterString_of_splitString hsplit]

/-- Commas are harmless. -/
theorem harmless_commaSeparated {items : List Text} (h : ∀ t ∈ items, Harmless t) :
    Harmless (Text.commaSeparated items) := by
  induction items with
  | nil => exact harmless_nil
  | cons t items ih =>
    obtain ⟨ht, hitems⟩ := List.forall_mem_cons.mp h
    rcases items with _ | ⟨t', items⟩
    · simpa [Text.commaSeparated] using ht
    · rw [commaSeparated_cons_cons, ← List.singleton_append]
      exact ht.append ((harmless_char rfl (by decide)).append (ih hitems))

theorem harmless_brackets {a b : Char} (ha : isHarmless a = true ∧ a ≠ '\'')
    (hb : isHarmless b = true ∧ b ≠ '\'') (ht : Harmless t) : Harmless ([a] ++ t ++ [b]) :=
  ((harmless_char ha.1 ha.2).append ht).append (harmless_char hb.1 hb.2)

/-- A number is harmless, also in parentheses. -/
theorem harmless_number (n : Numeral) : Harmless (Literal.number n).write := by
  have htext := harmless_of_isNumeral (isNumeral_of_isNumber n.valid).2
  rw [Literal.write, signedLiteral]
  split
  · exact (harmless_char (c := ' ') rfl (by decide)).append htext
  · exact htext

theorem harmless_writeField {field : Text × Literal} (h : Harmless field.2.write) :
    Harmless (writeField field) :=
  ((harmless_stringLiteral field.1).append (harmless_char rfl (by decide))).append h

/-- **Outside of its strings a literal is harmless.** -/
theorem harmless_write (l : Literal) : Harmless l.write := by
  induction l using Literal.inductionOn with
  | null => exact harmless_of_isNumeral (List.all_eq_true.mp rfl)
  | bool b => cases b <;> exact harmless_of_isNumeral (List.all_eq_true.mp rfl)
  | number n => exact harmless_number n
  | string t => exact harmless_stringLiteral t
  | list items ih =>
    rw [write_list]
    refine harmless_brackets (by decide) (by decide) (harmless_commaSeparated fun t ht => ?_)
    obtain ⟨item, hitem, rfl⟩ := List.mem_map.mp ht
    exact ih item hitem
  | object fields ih =>
    rw [write_object]
    refine harmless_brackets (by decide) (by decide) (harmless_commaSeparated fun t ht => ?_)
    obtain ⟨field, hfield, rfl⟩ := List.mem_map.mp ht
    exact harmless_writeField (ih field hfield)

/-- Each character outside of the strings of a literal is harmless. -/
theorem isHarmless_of_mem_outsideStrings (l : Literal) (hc : c ∈ outsideStrings l.write) :
    isHarmless c = true := by
  obtain ⟨own, hown, hall⟩ := harmless_write l []
  rw [List.append_nil, outsideStrings, List.append_nil] at hown
  exact hall c (hown ▸ hc)

end SafeMarkup.Js
