import SafeMarkup.Context.Bytes
import SafeMarkup.Proofs.ByteNames
import SafeMarkup.Proofs.ByteReferences

/-!
# Steps on bytes are steps on characters

A step on bytes and a step on characters do the same. Where both decide on the same piece of the
text, the one on bytes is the other with its characters counted in bytes (`Step.inBytes`); there is
one lemma for each kind of place. Text without a meaning of its own is written in runs on bytes and
one character at a time on characters, so it is not compared here.
-/

namespace SafeMarkup

/-- The same step on `text`, with bytes counted for characters. -/
def Step.inBytes (text : Text) : Step → Step
  | .consumed next written used => .consumed next written (Text.utf8Size (text.take used))
  | .blocked next => .blocked next

namespace Context

open Text Html

variable {ctx next : Context} {last : Bool} {c : Char} {a rest input z : Text}

namespace Bytes

/-! ### What is written -/

theorem inBytes_append {n : Nat} {w : Text} (hn : n = a.length) :
    (Step.consumed next w n).inBytes (a ++ z) = .consumed next w (utf8Size a) := by
  rw [Step.inBytes, hn, List.take_left]

/-- A cut between two parts of a text always succeeds. -/
theorem emitAfter_append (before : Text) (next : Context) (a z : Text) :
    emitAfter before next (a ++ z) (utf8Size a)
      = some (.consumed next (before ++ a) (utf8Size a)) := by
  rw [emitAfter, cutAt?_append]
  rfl

theorem emit_append (next : Context) (a z : Text) :
    emit next (a ++ z) (utf8Size a) = some (.consumed next a (utf8Size a)) :=
  emitAfter_append [] next a z

theorem emit_all (next : Context) (input : Text) :
    emit next input (utf8Size input) = some (.consumed next input (utf8Size input)) := by
  have hemit := emit_append next input []
  rwa [List.append_nil] at hemit

/-- ASCII characters have one byte each, so for them the two ways of counting agree. -/
theorem emit_copy {n : Nat} (h : ∀ c ∈ input.take n, isAscii c = true) (hn : n ≤ input.length) :
    emit next input n = some ((Step.copy next input n).inBytes input) := by
  have hsize : utf8Size (input.take n) = n := by
    rw [utf8Size_of_isAscii h, List.length_take, Nat.min_eq_left hn]
  have hemit := emit_append next (input.take n) (input.drop n)
  rw [List.take_append_drop, hsize] at hemit
  rw [hemit, Step.copy, Step.inBytes, hsize]

theorem emit_prefix (a z : Text) (ha : ∀ c ∈ a, isAscii c = true) :
    emit next (a ++ z) a.length = some ((Step.copy next (a ++ z) a.length).inBytes (a ++ z)) := by
  apply emit_copy
  · rwa [List.take_left]
  · rw [List.length_append]
    omega

/-- One ASCII character, with text added in front. -/
theorem emitAfter_one (before : Text) (hc : isAscii c = true) :
    emitAfter before next (c :: rest) 1
      = some ((Step.consumed next (before ++ [c]) 1).inBytes (c :: rest)) := by
  have hsize : utf8Size [c] = 1 := utf8Size_of_isAscii (by simpa using hc)
  have hemit := emitAfter_append before next [c] rest
  rw [hsize] at hemit
  rw [Step.inBytes, List.take_succ_cons, List.take_zero, hsize]
  exact hemit

theorem emit_one (hc : isAscii c = true) :
    emit next (c :: rest) 1 = some ((Step.consumed next [c] 1).inBytes (c :: rest)) :=
  emitAfter_one [] hc

/-- One character of any size: the first byte tells how many bytes belong to it. -/
theorem emitChar_cons (ctx : Context) (c : Char) (rest : Text) :
    emitChar ctx (c :: rest) = some ((ctx.stepChar c).inBytes (c :: rest)) := by
  have hsize : utf8Size [c] = c.utf8Size := utf8Size_cons c []
  rw [stepChar, Step.inBytes, List.take_succ_cons, List.take_zero, hsize]
  rfl

/-! ### Tags -/

theorem asciiOnly_endsTagName : AsciiOnly Html.endsTagName :=
  (asciiOnly_isHtmlSpace.or (asciiOnly_eq (by decide))).or (asciiOnly_eq (by decide))

theorem asciiOnly_endsAttrName : AsciiOnly Html.endsAttrName :=
  asciiOnly_endsTagName.or (asciiOnly_eq (by decide))

theorem asciiOnly_isAlpha : AsciiOnly Char.isAlpha := by
  intro c hc
  apply isAscii_of_isAlphanum
  rw [Char.isAlphanum, hc, Bool.true_or]

/-- The name of a tag. -/
theorem tagName_eq (opening : Text) (hopening : ∀ c ∈ opening, isAscii c = true)
    (isEndTag : Bool) :
    tagName ctx last (opening ++ rest) opening.length isEndTag
      = some ((ctx.stepTagName last opening
          (if isEndTag then fun _ => none else Element.ofTagName?) rest).inBytes
            (opening ++ rest)) := by
  rw [tagName, ← utf8Size_of_isAscii hopening, sliceFrom?_byteView, stepTagName]
  simp only [Option.bind_eq_bind, Option.bind_some]
  -- either the end of the name is there, or all of the rest belongs to the name so far
  cases stop Html.endsTagName rest with
  | found a d z ha hd =>
    rw [findIdx?_byteView asciiOnly_endsTagName ha hd, takeWhile_found ha hd,
      dropWhile_found ha hd]
    dsimp only
    rw [← utf8Size_append, slice?_byteView, ← List.append_assoc, inBytes_append (by simp)]
    cases isEndTag with
    | true => exact emit_append _ (opening ++ a) (d :: z)
    | false =>
      -- the element is looked up by the bytes of the name
      show emit { state := .tag, element := Element.ofTagName? (byteView a) } _ _ = _
      rw [Element.ofTagName?_byteView]
      exact emit_append _ (opening ++ a) (d :: z)
  | absent _ hrest =>
    rw [findIdx?_byteView_eq_none asciiOnly_endsTagName hrest, takeWhile_absent hrest,
      dropWhile_absent hrest]
    dsimp only
    cases last with
    | false => rfl
    | true =>
      rw [if_pos rfl, if_pos rfl, emit_all, ← List.length_append, Step.inBytes, List.take_length]

/-- The name of an attribute is cut within its bounds. -/
theorem attrKind?_eq (name : Text) : attrKind? name = some (AttrKind.ofName name) := by
  rw [attrKind?, AttrKind.ofName]
  split
  · next hdata =>
    have hlen : 5 ≤ name.length := by
      have hsame := congrArg List.length (eq_of_beq hdata)
      have hfive : "data-".toList.length = 5 := rfl
      rw [length_lower, length_lower, List.length_take] at hsame
      omega
    rw [sliceFrom?, if_pos hlen]
    rfl
  -- without `data-` it is the part after a colon that counts, if there is one
  cases stop (· == ':') name with
  | found a d z ha hd =>
    have htake : (a ++ d :: z).takeWhile (· != ':') = a := takeWhile_found ha hd
    have hdrop : (a ++ d :: z).dropWhile (· != ':') = d :: z := dropWhile_found ha hd
    have hstart : (a ++ d :: z).slice? 0 a.length = some a := by
      have hslice := slice?_append [] a (d :: z)
      rwa [List.length_nil, Nat.zero_add] at hslice
    have hlocal : (a ++ d :: z).sliceFrom? (a.length + 1) = some z := by
      have hslice := sliceFrom?_append (a ++ [d]) z
      rwa [← List.append_cons, List.length_append] at hslice
    rw [findIdx?_stop ha hd, htake, hdrop]
    simp only [Option.bind_eq_bind, Option.bind_some, hstart, hlocal]
    split <;> rfl
  | absent _ hnone =>
    have hfind : name.findIdx? (· == ':') = none := List.findIdx?_eq_none_iff.mpr hnone
    have hdrop : name.dropWhile (· != ':') = [] := dropWhile_absent hnone
    rw [hfind, hdrop]

theorem attrKind?_byteView (name : Text) :
    attrKind? (byteView name) = some (AttrKind.ofName name) := by
  rw [attrKind?_eq, AttrKind.ofName_byteView]

/-- Between attributes. -/
theorem tag_cons (ctx : Context) (last : Bool) (c : Char) (rest : Text) :
    tag ctx last (c :: rest) = some ((ctx.stepTag last c rest).inBytes (c :: rest)) := by
  obtain ⟨b, hfirst, hb⟩ := exists_first_byte c rest
  have hslash : (b == '/') = (c == '/') := hb _ (asciiOnly_eq (by decide))
  rw [tag, stepTag]
  simp only [hfirst, Option.bind_eq_bind, Option.bind_some, hb.eq_iff (d := '>') (by decide),
    hb _ asciiOnly_isHtmlSpace, hslash, sliceFrom?_one]
  by_cases hclose : c = '>'
  · rw [if_pos hclose, if_pos hclose, hclose]
    exact emit_one (by decide)
  have hends : Html.endsTagName c = (isHtmlSpace c || c == '/') := by
    simp [Html.endsTagName, hclose]
  rw [if_neg hclose, if_neg hclose, ← hends]
  by_cases hspace : Html.endsTagName c = true
  · rw [if_pos hspace, if_pos hspace]
    exact emit_one (asciiOnly_endsTagName c hspace)
  rw [if_neg hspace, if_neg hspace]
  -- the scan for the end of the name starts after the first byte
  cases stop Html.endsAttrName rest with
  | found a d z ha hd =>
    have hpos := utf8Size_pos (List.cons_ne_nil c a)
    have hsize : utf8Size (c :: a) - 1 + 1 = utf8Size (c :: a) := by omega
    have hname : (byteView (c :: a ++ d :: z)).slice? 0 (utf8Size (c :: a))
        = some (byteView (c :: a)) := slice?_byteView [] (c :: a) (d :: z)
    rw [takeWhile_found ha hd, dropWhile_found ha hd, ← List.cons_append,
      findIdx?_drop_byteView asciiOnly_endsAttrName ha hd]
    dsimp only
    rw [hsize, hname, inBytes_append rfl]
    simp only [Option.bind_some, attrKind?_byteView]
    exact emit_append _ (c :: a) (d :: z)
  | absent _ hrest =>
    rw [takeWhile_absent hrest, dropWhile_absent hrest,
      findIdx?_drop_byteView_eq_none asciiOnly_endsAttrName hrest]
    simp only [Option.bind_some, attrKind?_byteView]
    cases last with
    | false => rfl
    | true =>
      rw [if_pos rfl, if_pos rfl, emit_all, Step.inBytes, List.take_length]

/-- After the name of an attribute, where any other character may start the next name. -/
theorem afterName_cons (ctx : Context) (last : Bool) (c : Char) (rest : Text) :
    afterName ctx last (c :: rest)
      = some ((ctx.stepAfterName last c rest).inBytes (c :: rest)) := by
  -- the first byte decides as the first character does, since all classes are ASCII only
  obtain ⟨b, hfirst, hb⟩ := exists_first_byte c rest
  rw [afterName, stepAfterName]
  simp only [hfirst, Option.bind_eq_bind, Option.bind_some, hb.eq_iff (d := '=') (by decide),
    hb.eq_iff (d := '>') (by decide), hb _ asciiOnly_isHtmlSpace]
  split
  · next h => subst h; exact emit_one (by decide)
  split
  · next h => subst h; exact emit_one (by decide)
  split
  · next h => exact emit_one (asciiOnly_isHtmlSpace c h)
  · exact tag_cons ctx.inTag last c rest

/-! ### Text -/

/-- A comment starts unless it is over at once, or more of it is needed. -/
theorem stepDeclaration_comment (hclose : ¬ ['>'] <+: rest) (hclose' : ¬ ['-', '>'] <+: rest)
    (hopen : ¬ (last = false ∧ (rest = [] ∨ rest = ['-']))) :
    ctx.stepDeclaration last ('-' :: '-' :: rest)
      = .copy { ctx with state := .comment } ('<' :: '!' :: '-' :: '-' :: rest) 4 := by
  unfold stepDeclaration
  split
  · next heq => simp_all
  · next heq => simp_all
  · simp_all
  · simp_all
  · rfl
  all_goals simp_all

/-- After `<!` without dashes, and without text that could still become two. -/
theorem stepDeclaration_bogus (hdashes : ¬ ['-', '-'] <+: rest)
    (hopen : ¬ (last = false ∧ rest <+: ['-', '-'])) :
    ctx.stepDeclaration last rest
      = .copy { ctx with state := .bogusComment } ('<' :: '!' :: rest) 2 := by
  unfold stepDeclaration
  split
  all_goals simp_all

/-- After `<!--`. -/
theorem declaration_dashes (ctx : Context) (last : Bool) (rest : Text) :
    declaration ctx last ('<' :: '!' :: '-' :: '-' :: rest)
      = some ((ctx.stepDeclaration last ('-' :: '-' :: rest)).inBytes
          ('<' :: '!' :: '-' :: '-' :: rest)) := by
  have hview : byteView ('<' :: '!' :: '-' :: '-' :: rest) = "<!--".toList ++ byteView rest :=
    byteView_append "<!--".toList rest
  have hopening : "<!--".toList.isPrefixOf ("<!--".toList ++ byteView rest) = true :=
    List.isPrefixOf_iff_prefix.mpr (List.prefix_append _ _)
  have hdrop : ("<!--".toList ++ byteView rest).drop 4 = byteView rest := rfl
  -- from here on `<!--` is a known prefix, so only what follows it has to be compared
  rw [declaration]
  simp only [hview, hopening, if_true, hdrop,
    prefix_byteView (a := ['>']) (List.all_eq_true.mp rfl),
    prefix_byteView (a := ['-', '>']) (List.all_eq_true.mp rfl),
    byteView_eq_iff (a := []) (List.all_eq_true.mp rfl),
    byteView_eq_iff (a := ['-']) (List.all_eq_true.mp rfl)]
  split
  · next hclose =>
    obtain ⟨r, rfl⟩ := hclose
    exact emit_prefix "<!-->".toList r (List.all_eq_true.mp rfl)
  next hclose =>
    split
    · next hclose' =>
      obtain ⟨r, rfl⟩ := hclose'
      exact emit_prefix "<!--->".toList r (List.all_eq_true.mp rfl)
    next hclose' =>
      split
      · next hopen =>
        obtain ⟨rfl, rfl | rfl⟩ := hopen <;> rfl
      · next hopen =>
        rw [stepDeclaration_comment hclose hclose' hopen]
        exact emit_prefix "<!--".toList rest (List.all_eq_true.mp rfl)

/-- After `<!`. -/
theorem declaration_cons (ctx : Context) (last : Bool) (rest : Text) :
    declaration ctx last ('<' :: '!' :: rest)
      = some ((ctx.stepDeclaration last rest).inBytes ('<' :: '!' :: rest)) := by
  by_cases hdashes : ['-', '-'] <+: rest
  · obtain ⟨r, rfl⟩ := hdashes
    exact declaration_dashes ctx last r
  have hopening : ¬ "<!--".toList <+: '<' :: '!' :: rest := by
    show ¬ ['<', '!', '-', '-'] <+: _
    simpa [List.cons_prefix_cons] using hdashes
  have hshort : '<' :: '!' :: rest <+: "<!--".toList ↔ rest <+: ['-', '-'] := by
    show _ <+: ['<', '!', '-', '-'] ↔ _
    simp [List.cons_prefix_cons]
  have hmin : min (utf8Size ('<' :: '!' :: rest)) 2 = 2 := by
    have hsize : utf8Size ('<' :: '!' :: rest) = 2 + utf8Size rest :=
      utf8Size_append ['<', '!'] rest
    omega
  rw [declaration]
  -- without a `--` the text is blocked only if it is not longer than `<!-`
  simp only [prefix_byteView (a := "<!--".toList) (List.all_eq_true.mp rfl), hopening, if_false,
    byteView_prefix (a := "<!--".toList) (List.all_eq_true.mp rfl), hshort, hmin]
  split
  · next hopen =>
    obtain ⟨rfl, hprefix⟩ := hopen
    have hrest : rest = [] ∨ rest = ['-'] := by
      rcases List.prefix_cons_iff.mp hprefix with rfl | ⟨t, rfl, ht⟩
      · exact Or.inl rfl
      rcases List.prefix_cons_iff.mp ht with rfl | ⟨u, rfl, -⟩
      · exact Or.inr rfl
      · exact absurd (List.prefix_append ['-', '-'] u) hdashes
    rcases hrest with rfl | rfl <;> rfl
  · next hopen =>
    rw [stepDeclaration_bogus hdashes hopen]
    exact emit_prefix ['<', '!'] rest (List.all_eq_true.mp rfl)

/-- After `</`. -/
theorem endTag_cons (ctx : Context) (last : Bool) (rest : Text) :
    endTag ctx last ('<' :: '/' :: rest)
      = some ((ctx.stepEndTag last rest).inBytes ('<' :: '/' :: rest)) := by
  have hnext : (byteView ('<' :: '/' :: rest))[2]? = (byteView rest)[0]? :=
    getElem?_byteView (a := ['<', '/']) (List.all_eq_true.mp rfl) rfl
  rw [endTag, hnext]
  -- with nothing after `</` the step waits for more, unless this is the end of the text
  cases rest with
  | nil =>
    cases last with
    | false => rfl
    | true => exact emit_prefix ['<', '/'] [] (List.all_eq_true.mp rfl)
  | cons c rest =>
    obtain ⟨b, hfirst, hb⟩ := exists_first_byte c rest
    rw [hfirst]
    simp only [stepEndTag, hb _ asciiOnly_isAlpha, hb.eq_iff (d := '>') (by decide)]
    split
    · exact tagName_eq ['<', '/'] (List.all_eq_true.mp rfl) true
    split
    · next h =>
      subst h
      exact emit_prefix ['<', '/', '>'] rest (List.all_eq_true.mp rfl)
    · exact emit_prefix ['<', '/'] (c :: rest) (List.all_eq_true.mp rfl)

/-- At a `<` in text. Each kind of markup has its own step. -/
theorem markup_cons (ctx : Context) (last : Bool) (rest : Text) :
    markup ctx last ('<' :: rest) = some ((ctx.stepMarkup last rest).inBytes ('<' :: rest)) := by
  have hnext : (byteView ('<' :: rest))[1]? = (byteView rest)[0]? :=
    getElem?_byteView (a := ['<']) (List.all_eq_true.mp rfl) rfl
  rw [markup, hnext]
  -- with nothing after `<` the step waits for more, unless this is the end of the text
  cases rest with
  | nil =>
    cases last with
    | false => rfl
    | true => exact emit_prefix ['<'] [] (List.all_eq_true.mp rfl)
  | cons c rest =>
    obtain ⟨b, hfirst, hb⟩ := exists_first_byte c rest
    rw [hfirst]
    simp only [stepMarkup, hb _ asciiOnly_isAlpha, hb.eq_iff (d := '!') (by decide),
      hb.eq_iff (d := '?') (by decide), hb.eq_iff (d := '/') (by decide)]
    split
    · next h => subst h; exact declaration_cons ctx last rest
    split
    · next h =>
      subst h
      exact emit_prefix ['<', '?'] rest (List.all_eq_true.mp rfl)
    split
    · next h => subst h; exact endTag_cons ctx last rest
    split
    · exact tagName_eq ['<'] (List.all_eq_true.mp rfl) false
    · exact emit_prefix ['<'] (c :: rest) (List.all_eq_true.mp rfl)

/-! ### Values of attributes -/

/-- At an `&` in a value. A reference is ASCII as far as it goes, so it is cut off as it is. -/
theorem charRef_amp (ctx : Context) (last : Bool) (rest : Text) :
    charRef ctx last ('&' :: rest)
      = some ((ctx.stepValueChar last '&' rest).inBytes ('&' :: rest)) := by
  rw [charRef, CharRef.matchBytes_utf8Bytes, stepValueChar, if_pos rfl]
  simp only [Option.bind_eq_bind, Option.bind_some]
  -- the matcher of bytes finds what the scan of characters finds
  cases hscan : CharRef.scan last rest with
  | complete length char =>
    obtain ⟨hpos, hle⟩ := CharRef.scan_length hscan
    have hascii : ∀ c ∈ ('&' :: rest).take length, isAscii c = true := by
      intro c hc
      rw [List.take_cons hpos, List.mem_cons] at hc
      rcases hc with rfl | hc
      · decide
      · exact CharRef.isAscii_of_isRefChar (CharRef.mem_of_scan hscan c hc)
    exact emit_copy hascii (by rw [List.length_cons]; omega)
  | incomplete => rfl
  | absent => exact emitChar_cons ctx '&' rest

/-- In a value. What ends it depends on its delimiter; all else is read by one and the same step. -/
theorem value_cons (ctx : Context) (delim : Delim) (last : Bool) (c : Char) (rest : Text) :
    value ctx delim last (c :: rest)
      = some ((ctx.stepValue delim last c rest).inBytes (c :: rest)) := by
  obtain ⟨b, hfirst, hb⟩ := exists_first_byte c rest
  -- inside the value nothing depends on the delimiter
  have hinside : (if c = '&' then charRef ctx last (c :: rest) else emitChar ctx (c :: rest))
      = some ((ctx.stepValueChar last c rest).inBytes (c :: rest)) := by
    split
    · next h => subst h; exact charRef_amp ctx last rest
    · next h =>
      rw [stepValueChar, if_neg h]
      exact emitChar_cons ctx c rest
  unfold value stepValue
  simp only [hfirst, Option.bind_eq_bind, Option.bind_some, hb.eq_iff (d := '&') (by decide),
    hb.eq_iff (d := '"') (by decide), hb.eq_iff (d := '\'') (by decide),
    hb.eq_iff (d := '>') (by decide), hb _ asciiOnly_isHtmlSpace, hinside]
  -- outside of quotes a value may end after a space, and its quotes may have to be added
  cases delim with
  | doubleQuote | singleQuote =>
    dsimp only
    split
    · next h => subst h; exact emit_one (by decide)
    · rfl
  | spaceOrTagEnd =>
    dsimp only
    split
    · next h => subst h; exact emit_one (by decide)
    split
    · next h => exact emit_one (asciiOnly_isHtmlSpace c h)
    · rfl
  | autoQuote =>
    dsimp only
    split
    · next h => subst h; exact emitAfter_one ['"'] (by decide)
    split
    · next h => exact emitAfter_one ['"'] (asciiOnly_isHtmlSpace c h)
    split
    · next h => subst h; rfl
    · rfl

/-- Before a value, which starts without quotes if nothing else comes. -/
theorem beforeValue_cons (ctx : Context) (last : Bool) (c : Char) (rest : Text) :
    beforeValue ctx last (c :: rest)
      = some ((ctx.stepBeforeValue last c rest).inBytes (c :: rest)) := by
  -- the characters that matter here are all ASCII, so their bytes stand for them
  obtain ⟨b, hfirst, hb⟩ := exists_first_byte c rest
  rw [beforeValue, stepBeforeValue]
  simp only [hfirst, Option.bind_eq_bind, Option.bind_some, hb.eq_iff (d := '"') (by decide),
    hb.eq_iff (d := '\'') (by decide), hb.eq_iff (d := '>') (by decide),
    hb _ asciiOnly_isHtmlSpace]
  split
  · next h => subst h; exact emit_one (by decide)
  split
  · next h => subst h; exact emit_one (by decide)
  split
  · next h => subst h; exact emit_one (by decide)
  split
  · next h => exact emit_one (asciiOnly_isHtmlSpace c h)
  · exact value_cons (ctx.attrValue .spaceOrTagEnd) .spaceOrTagEnd last c rest

/-! ### Comments -/

/-- A comment goes on unless it is over, or more of it is needed. -/
theorem stepComment_plain (hclose : ¬ "-->".toList <+: c :: rest)
    (hclose' : ¬ "--!>".toList <+: c :: rest)
    (hopen : ¬ (last = false ∧ (c :: rest <+: "-->".toList ∨ c :: rest <+: "--!>".toList))) :
    ctx.stepComment last c rest = .copy ctx (c :: rest) 1 := by
  unfold stepComment
  dsimp only
  generalize c :: rest = text at *
  -- the branches are those of the definition; the hypotheses rule out all but the last
  split
  · simp_all
  · simp_all
  · simp_all
  · simp_all
  · simp_all
  · rfl

/-- What could still become the end of a comment is held back. -/
theorem stepComment_blocked (h : c :: rest <+: "-->".toList ∨ c :: rest <+: "--!>".toList)
    (hclose : ¬ "-->".toList <+: c :: rest) (hclose' : ¬ "--!>".toList <+: c :: rest) :
    ctx.stepComment false c rest = .blocked ctx := by
  have hchars : "-->".toList = ['-', '-', '>'] ∧ "--!>".toList = ['-', '-', '!', '>'] := ⟨rfl, rfl⟩
  rw [hchars.1, hchars.2] at h
  simp only [List.prefix_cons_iff, List.cons.injEq, List.prefix_nil, reduceCtorEq, false_or] at h
  -- the text is a proper start of one of the two ends, so there are five to go through
  rcases h with ⟨t, ⟨rfl, rfl⟩, h⟩ | ⟨t, ⟨rfl, rfl⟩, h⟩
  · rcases h with rfl | ⟨u, rfl, rfl | ⟨v, rfl, rfl⟩⟩
    · rfl
    · rfl
    · exact absurd (List.prefix_refl _) hclose
  · rcases h with rfl | ⟨u, rfl, rfl | ⟨v, rfl, rfl | ⟨w, rfl, rfl⟩⟩⟩
    · rfl
    · rfl
    · rfl
    · exact absurd (List.prefix_refl _) hclose'

/-- At a `-` in a comment. -/
theorem commentEnd_dash (ctx : Context) (last : Bool) (rest : Text) :
    commentEnd ctx last ('-' :: rest)
      = some ((ctx.stepComment last '-' rest).inBytes ('-' :: rest)) := by
  rw [commentEnd]
  simp only [prefix_byteView (a := "-->".toList) (List.all_eq_true.mp rfl),
    prefix_byteView (a := "--!>".toList) (List.all_eq_true.mp rfl),
    byteView_prefix (a := "-->".toList) (List.all_eq_true.mp rfl),
    byteView_prefix (a := "--!>".toList) (List.all_eq_true.mp rfl)]
  -- in bytes and in characters the branches are taken in the same order
  split
  · next hclose =>
    obtain ⟨r, hr⟩ := hclose
    rw [← hr]
    cases hr
    exact emit_prefix "-->".toList r (List.all_eq_true.mp rfl)
  next hclose =>
    split
    · next hclose' =>
      obtain ⟨r, hr⟩ := hclose'
      cases hr
      exact emit_prefix "--!>".toList r (List.all_eq_true.mp rfl)
    next hclose' =>
      split
      · next hopen =>
        obtain ⟨rfl, hprefix⟩ := hopen
        rw [stepComment_blocked hprefix hclose hclose']
        rfl
      · next hopen =>
        rw [stepComment_plain hclose hclose' hopen]
        exact emit_prefix ['-'] rest (List.all_eq_true.mp rfl)

/-! ### Content of special elements -/

/-- Names are compared up to the end of the shorter one. -/
theorem all_zip_eq_sameName {name : Text} (hname : lower name = name) (t : Text) :
    ((t.zip name).all fun (c, d) => c.toLower == d)
      = sameName (t.take (min t.length name.length)) (name.take (min t.length name.length)) := by
  -- on the text, with the name generalized: both get shorter together
  induction t generalizing name with
  | nil => rfl
  | cons c t ih =>
    cases name with
    | nil => rfl
    | cons d name =>
      obtain ⟨hd, hname⟩ := List.cons.inj hname
      rw [List.zip_cons_cons, List.all_cons, ih hname, List.length_cons, List.length_cons,
        Nat.add_min_add_right, List.take_succ_cons, List.take_succ_cons]
      show _ = (c.toLower :: lower _ == d.toLower :: lower _)
      rw [List.cons_beq_cons, hd]
      rfl

/-- Could this be the end tag of the element? No slice of the comparison goes too far. -/
theorem couldEnd?_eq (element : Html.Element) (bytes : Text) :
    couldEnd? element bytes = some (element.couldEnd bytes) := by
  have hname : lower element.tagName = element.tagName := by cases element <;> decide
  have hslice {t : Text} {n : Nat} (hn : n ≤ t.length) : t.slice? 0 n = some (t.take n) := by
    rw [slice?, if_pos ⟨Nat.zero_le n, hn⟩, List.drop_zero]
  rw [couldEnd?, hslice (Nat.min_le_left _ _), hslice (Nat.min_le_right _ _)]
  exact congrArg some (all_zip_eq_sameName hname bytes).symm

/-- After `</` there may be the rest of an end tag. -/
theorem contentMarkup_slash (ctx : Context) (element : Html.Element) (last : Bool) (more : Text) :
    contentMarkup ctx element last ('<' :: '/' :: more)
      = some ((ctx.stepContentMarkup element last ('/' :: more)).inBytes ('<' :: '/' :: more)) := by
  have hview : byteView ('<' :: '/' :: more) = '<' :: '/' :: byteView more := by
    rw [byteView_cons_of_isAscii (by decide), byteView_cons_of_isAscii (by decide)]
  have hslash : ('<' :: '/' :: byteView more)[1]? = some '/' := rfl
  have hslice : Text.sliceFrom? ('<' :: '/' :: byteView more) 2 = some (byteView more) :=
    sliceFrom?_append ['<', '/'] (byteView more)
  rw [contentMarkup, stepContentMarkup]
  simp only [hview, hslash, hslice, Option.bind_eq_bind, Option.bind_some, couldEnd?_eq,
    Element.couldEnd_byteView, true_and]
  by_cases hend : element.couldEnd more = true
  · have hascii := Element.isAscii_of_couldEnd hend
    have hat : ('<' :: '/' :: byteView more)[2 + element.tagName.length]?
        = (byteView (more.drop element.tagName.length))[0]? := by
      rw [← drop_byteView hascii, List.getElem?_drop, Nat.add_comm 2, Nat.add_zero]
      rfl
    -- what stands after the name of the end tag
    rw [if_pos hend, if_pos hend, hat]
    cases hdrop : more.drop element.tagName.length with
    | nil => cases last <;> rfl
    | cons d z =>
      obtain ⟨b, hfirst, hb⟩ := exists_first_byte d z
      simp only [hfirst, hb _ asciiOnly_endsTagName]
      split
      · have hlen := congrArg List.length hdrop
        rw [List.length_drop, List.length_cons] at hlen
        apply emit_copy
        · rw [Nat.add_comm 2, List.take_succ_cons, List.take_succ_cons]
          simpa [List.forall_mem_cons] using ⟨by decide, by decide, hascii⟩
        · rw [List.length_cons, List.length_cons]
          omega
      · exact emitChar_cons ctx '<' ('/' :: more)
  · rw [if_neg hend, if_neg hend]
    exact emitChar_cons ctx '<' ('/' :: more)

/-- At a `<` in the content of an element that only its end tag ends. -/
theorem contentMarkup_cons (ctx : Context) (element : Html.Element) (last : Bool) (rest : Text) :
    contentMarkup ctx element last ('<' :: rest)
      = some ((ctx.stepContentMarkup element last rest).inBytes ('<' :: rest)) := by
  cases rest with
  | nil =>
    have hend : (byteView ['<'])[2 + element.tagName.length]? = none := by
      apply List.getElem?_eq_none
      show 1 ≤ 2 + element.tagName.length
      omega
    have hnext : (byteView ['<'])[1]? = none := rfl
    rw [contentMarkup]
    simp only [hnext, hend]
    cases last <;> rfl
  | cons c more =>
    -- only a slash can start an end tag, and for that there is a lemma
    by_cases hc : c = '/'
    · rw [hc]
      exact contentMarkup_slash ctx element last more
    obtain ⟨b, hfirst, hb⟩ := exists_first_byte c more
    have hnext : (byteView ('<' :: c :: more))[1]? = some b := by
      rw [byteView_cons_of_isAscii (by decide)]
      exact hfirst
    have hb' : b ≠ '/' := fun h => hc ((hb.eq_iff (by decide)).mp h)
    rw [contentMarkup, stepContentMarkup]
    simp only [hnext, hc, false_and, if_false]
    exact emitChar_cons ctx '<' (c :: more)

end Bytes

end Context

end SafeMarkup
