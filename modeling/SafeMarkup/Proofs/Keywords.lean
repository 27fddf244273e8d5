import SafeMarkup.Context.Buffered
import SafeMarkup.Proofs.ByteView
import SafeMarkup.Proofs.JsEscape
import SafeMarkup.Proofs.LookBehind

/-!
# Slashes after words

After an operand a `/` is a division, and after a keyword like `return` it starts a regular
expression. So JS remembers the word before the cursor, which is the longest run of letters right
before it (`Js.lawful_lookBehind`), and compares it with the keywords (`slash_after_word`). A word
that is longer than all of them, or goes beyond ASCII, is remembered only as being neither
(`Js.foldl_push`).

The word can be kept in a buffer that has just enough room for a keyword. Reading with a buffer has
no result if a letter is stored beyond its end, which never happens (`Buffered.exists_feedAll?`).
-/

namespace SafeMarkup

namespace Js

variable {c : Char} {t : Text}

/-! ### Words as they are remembered -/

/-- A word is remembered as it is if it can be a keyword, and otherwise only as being too long. -/
theorem foldl_push (t : Text) :
    t.foldl Word.push .empty
      = if t.all isAscii && t.length ≤ keywordBound then .short t else .long := by
  -- from the end, since the last character decides whether the word gets too long
  induction t using List.reverseRecOn with
  | nil => rfl
  | append_singleton t c ih =>
    have hall : (t ++ [c]).all isAscii = (t.all isAscii && isAscii c) := by
      rw [List.all_append, List.all_cons, List.all_nil, Bool.and_true]
    rw [List.foldl_append, List.foldl_cons, List.foldl_nil, ih, hall, List.length_append,
      List.length_singleton]
    by_cases hshort : t.all isAscii = true ∧ t.length ≤ keywordBound
    · rw [if_pos (by simpa using hshort), Word.push, hshort.1, Bool.true_and]
      rfl
    · -- a word that is too long, or not ASCII, stays so
      have hlonger : ¬ (t.all isAscii = true ∧ t.length + 1 ≤ keywordBound) :=
        fun h => hshort ⟨h.1, Nat.le_of_succ_le h.2⟩
      rw [if_neg (by simpa using hshort), if_neg, Word.push]
      simp only [Bool.and_eq_true, decide_eq_true_eq]
      exact fun h => hlonger ⟨h.1.1, h.2⟩

theorem short_of_mem_keywords (h : t ∈ keywords) :
    t.all isAscii = true ∧ t.length ≤ keywordBound := by
  have hall : keywords.all (fun k => k.all isAscii && k.length ≤ keywordBound) = true := by decide
  simpa using List.all_eq_true.mp hall t h

/-- **The look-behind is exact.** -/
theorem precedesRegexp_foldl_push_iff :
    (t.foldl Word.push .empty).precedesRegexp = true ↔ t ∈ keywords := by
  rw [foldl_push]
  split
  · exact List.contains_iff_mem
  · next hlong =>
    refine iff_of_false (by simp [Word.precedesRegexp]) fun h => hlong ?_
    simpa using short_of_mem_keywords h

/-! ### Words in a buffer -/

namespace WordBuffer

variable {buffer : WordBuffer}

theorem length_take_letters {n : Nat} (h : n ≤ keywordBound) :
    (buffer.letters.take n).length = n :=
  List.length_take_of_le (by simpa using h)

/-- Storing a letter right after the word makes it one letter longer. -/
theorem take_store {bytes : Vector UInt8 keywordBound} {position : Nat}
    (h : position < keywordBound) (hc : isAscii c = true) :
    (Text.ofBytes (bytes.set position (UInt8.ofNat c.toNat) h).toList).take (position + 1)
      = (Text.ofBytes bytes.toList).take position ++ [c] := by
  have hlength : position < (Text.ofBytes bytes.toList).length := by simpa using h
  rw [Vector.toList_set, Text.ofBytes, List.map_set, ofUInt8_of_isAscii hc, ← Text.ofBytes,
    ← List.take_append_getElem (by simpa using hlength), List.take_set_of_le (Nat.le_refl _),
    List.getElem_set_self]

/-- **A letter never goes beyond the end of the buffer**, whatever the buffer holds. -/
theorem exists_push? (buffer : WordBuffer) (c : Char) :
    ∃ next, buffer.push? c = some next ∧ next.word = buffer.word.push c := by
  have hcapacity : keywordBound = 10 := rfl
  by_cases hpush : isAscii c = true ∧ buffer.size.toNat < keywordBound
  · obtain ⟨hascii, hroom⟩ := hpush
    -- there is room, so the size is far from where its byte would wrap around
    have hsize : (buffer.size + 1).toNat = buffer.size.toNat + 1 := by
      rw [UInt8.toNat_add, UInt8.toNat_one]
      omega
    refine ⟨_, by rw [push?, if_pos (by simp [hascii, hroom]), store?, dif_pos hroom]; rfl, ?_⟩
    rw [word, hsize, if_pos (Nat.succ_le_of_lt hroom), word, if_pos (Nat.le_of_lt hroom), Word.push,
      length_take_letters (Nat.le_of_lt hroom), if_pos (by simp [hascii, hroom])]
    exact congrArg Word.short (take_store hroom hascii)
  · refine ⟨_, by rw [push?, if_neg (by simpa using hpush)], ?_⟩
    rw [word, if_neg (show ¬ longSize.toNat ≤ keywordBound by decide), word]
    split
    · next hsize =>
      rw [Word.push, length_take_letters hsize, if_neg (by simpa using hpush)]
    · rfl

/-- The buffer tells what the word tells, and is never read beyond its end. -/
theorem precedesRegexp?_eq (buffer : WordBuffer) :
    buffer.precedesRegexp? = some buffer.word.precedesRegexp := by
  unfold precedesRegexp? word
  split
  · next h =>
    rw [Text.slice?, if_pos ⟨Nat.zero_le _, by simpa using h⟩]
    rfl
  · rfl

end WordBuffer

end Js

namespace Context

variable {ctx : Context} {c : Char} {word : Js.Word} {mode : Js.Mode}

/-! ### Characters of code -/

/-- A letter goes on with the word before it, and the word decides what a `/` is. -/
theorem feedJsCode_wordChar (ctx : Context) (hc : Js.isWordChar c = true) :
    ctx.feedJsCode c = { ctx with
      word := ctx.word.push c
      slash := if (ctx.word.push c).precedesRegexp then .regexp else .division
      lastChar := remembered c } := by
  have hne {d : Char} (hd : Js.isWordChar d = false) : c ≠ d := ne_of_class hc hd
  have hspace : Js.isSpace c = false :=
    Bool.eq_false_iff.mpr fun h => by simp [Js.isWordChar_of_isSpace h] at hc
  have hoperator : Js.isOperator c = false :=
    Bool.eq_false_iff.mpr fun h => by simp [Js.isWordChar_of_isOperator h] at hc
  simp [feedJsCode, feedJsToken, afterJsChar, hc, hspace, hoperator, hne (d := '"') rfl,
    hne (d := '\'') rfl, hne (d := '\x60') rfl, hne (d := '/') rfl, hne (d := '+') rfl,
    hne (d := '-') rfl, hne (d := '.') rfl]

/-- Another word does not change what a slash would start. -/
@[simp] theorem withWord_slash : (ctx.withWord word).slash = ctx.slash := rfl

/-- Another word does not change what is flagged. -/
@[simp] theorem withWord_flags : (ctx.withWord word).flags = ctx.flags := rfl

/-- Another word does not change the last character. -/
@[simp] theorem withWord_lastChar : (ctx.withWord word).lastChar = ctx.lastChar := rfl

theorem feedJsToken_withWord (hc : ¬ Js.isWordChar c = true) :
    (ctx.withWord word).feedJsToken c = (ctx.feedJsToken c).withWord word := by
  dsimp +instances only [feedJsToken, withWord_slash, withWord_lastChar]
  split_ifs <;> rfl

/-- Any other character of code ends the word, whatever it was. -/
theorem feedJsCode_withWord (ctx : Context) (word : Js.Word) (hc : ¬ Js.isWordChar c = true) :
    (ctx.withWord word).feedJsCode c = (ctx.feedJsCode c).withWord .empty := by
  dsimp only [feedJsCode, afterJsChar]
  rw [if_neg hc, if_neg hc, feedJsToken_withWord hc]
  split_ifs <;> rfl

theorem feedJsRegexp_withWord (ctx : Context) (word : Js.Word) (c : Char) :
    (ctx.withWord word).feedJsRegexp c = (ctx.feedJsRegexp c).withWord word := by
  dsimp +instances only [feedJsRegexp, withWord_flags]
  split_ifs <;> rfl

/-- Only letters of words make the word longer, and all else ends it. -/
theorem word_feedJsCode (ctx : Context) (c : Char) :
    (ctx.feedJsCode c).word = if Js.isWordChar c then ctx.word.push c else .empty := by
  split
  · next hc => rw [feedJsCode_wordChar ctx hc]
  · next hc => exact congrArg Context.word (feedJsCode_withWord ctx ctx.word hc)

/-- Is the character read as one of code? After a `/` it is if that turns out to be a division. -/
def ReadsCode (ctx : Context) (mode : Js.Mode) (c : Char) : Prop :=
  mode = .code ∨ (mode = .slash ∧ c ≠ '/' ∧ c ≠ '*' ∧ ctx.slash = .division)

/-- A character that is read as one of code is read as if it stood there. -/
theorem ReadsCode.feed_eq (h : ctx.ReadsCode mode c) (hs : ctx.state = .js mode) :
    ∃ slash lastChar,
      ctx.feed c = feedJsCode { ctx with state := .js .code, slash, lastChar } c := by
  rcases h with rfl | ⟨rfl, hline, hblock, hslash⟩
  · have hself : ({ ctx with state := .js .code } : Context) = ctx := by rw [← hs]
    exact ⟨ctx.slash, ctx.lastChar, by rw [hself]; simp only [feed, hs, feedJs]⟩
  · exact ⟨.regexp, '/', by simp [feed, hs, feedJs, feedJsSlash, hline, hblock, hslash]⟩

/-- After a slash only a comment or a regular expression goes on otherwise. -/
theorem not_readsCode_slash (h : ¬ ctx.ReadsCode .slash c) :
    c = '/' ∨ c = '*' ∨ ctx.slash = .regexp := by
  cases hslash : ctx.slash with
  | regexp => exact .inr (.inr rfl)
  | division => simp [ReadsCode, hslash] at h; tauto

/-- What is no comment then is a regular expression. -/
theorem feedJsSlash_regexp (ctx : Context) (h : ¬ ctx.ReadsCode .slash c) (hline : c ≠ '/')
    (hblock : c ≠ '*') :
    ctx.feedJsSlash c = feedJsRegexp { ctx with state := .js .regexp } c := by
  have hslash := ((not_readsCode_slash h).resolve_left hline).resolve_left hblock
  simp [feedJsSlash, hline, hblock, hslash]

/-- A literal or comment is read regardless of the word before it, and so is the character that
tells what a `/` starts. -/
theorem feedJs_withWord (ctx : Context) (word : Js.Word) (h : ¬ ctx.ReadsCode mode c) :
    (ctx.withWord word).feedJs mode c = (ctx.feedJs mode c).withWord word := by
  cases mode with
  | code => exact absurd (.inl rfl) h
  | slash =>
    by_cases hline : c = '/'
    · rw [hline]; rfl
    by_cases hblock : c = '*'
    · rw [hblock]; rfl
    rw [feedJs, feedJs, feedJsSlash_regexp ctx h hline hblock,
      feedJsSlash_regexp (ctx.withWord word) h hline hblock]
    exact feedJsRegexp_withWord { ctx with state := .js .regexp } word c
  | regexp => exact feedJsRegexp_withWord ctx word c
  | doubleQuoted | singleQuoted | template | blockComment | lineComment =>
    dsimp +instances only [feedJs, feedString, feedBlockComment, withWord_flags]
    split_ifs <;> rfl

theorem word_feedJs (h : ¬ ctx.ReadsCode mode c) : (ctx.feedJs mode c).word = ctx.word := by
  have hsame := congrArg Context.word (feedJs_withWord ctx ctx.word h)
  exact hsame

/-- A regular expression does not end in a letter. -/
theorem isWordChar_of_feedJsRegexp (h : (ctx.feedJsRegexp c).state ≠ ctx.state) :
    Js.isWordChar c = false := by
  unfold feedJsRegexp at h
  split_ifs at h with _ _ _ _ hslash hline
  · exact absurd rfl h
  · exact absurd rfl h
  · exact absurd rfl h
  · exact absurd rfl h
  · rw [hslash.1]
    decide
  · exact Js.isWordChar_of_isLineEnd hline
  · exact absurd rfl h

/-- No letter leads back to code. -/
theorem isWordChar_of_feedJs (h : ¬ ctx.ReadsCode mode c) (hs : ctx.state = .js mode)
    (hnext : (ctx.feedJs mode c).state = .js .code ∨ (ctx.feedJs mode c).state = .js .slash) :
    Js.isWordChar c = false := by
  -- to get back to code the mode has to be left
  have hleft (hcode : mode ≠ .code) (hslash : mode ≠ .slash) :
      (ctx.feedJs mode c).state ≠ ctx.state := by
    rw [hs]
    rcases hnext with hnext | hnext <;> rw [hnext] <;> simpa [eq_comm]
  -- what ends the mode is a quote, a slash or the end of a line, and no letter
  cases mode with
  | code => exact absurd (.inl rfl) h
  | slash =>
    by_cases hline : c = '/'
    · rw [hline]; decide
    by_cases hblock : c = '*'
    · rw [hblock]; decide
    rw [feedJs, feedJsSlash_regexp ctx h hline hblock] at hnext
    have hends : (feedJsRegexp { ctx with state := .js .regexp } c).state ≠ .js .regexp :=
      fun heq => by simp [heq] at hnext
    exact isWordChar_of_feedJsRegexp hends
  | doubleQuoted | singleQuoted | template =>
    rcases eq_of_state_feedString (hleft (by decide) (by decide)) with hquote | hline
    · rw [hquote]; decide
    · cases hline
  | regexp => exact isWordChar_of_feedJsRegexp (hleft (by decide) (by decide))
  | blockComment =>
    rw [eq_of_state_feedBlockComment (hleft (by decide) (by decide))]
    decide
  | lineComment =>
    refine Js.isWordChar_of_isLineEnd (Classical.byContradiction fun hline => ?_)
    exact hleft (by decide) (by decide) (by rw [feedJs, if_neg hline])

end Context

namespace Js

/-- How JS remembers words. -/
def lookBehind : LookBehind Word where
  code := .js .code
  slash := .js .slash
  isWordChar := isWordChar
  word := Context.word
  empty := .empty
  push := Word.push
  feedCode := Context.feedJsCode

/-- Each character is read as the look-behind says. -/
theorem lookBehind_reads {ctx : Context} (hentry : ctx.state.entry = .js .code) (c : Char) :
    lookBehind.Reads ctx c := by
  -- only modes of JS are entered from its code
  cases hs : ctx.state with
  | js mode =>
    -- either the character is one of code, or it belongs to a literal or a comment
    by_cases hcode : ctx.ReadsCode mode c
    · obtain ⟨slash, lastChar, hfeed⟩ := hcode.feed_eq hs
      refine .asCode ?_ { ctx with state := .js .code, slash, lastChar } rfl rfl hfeed
      rcases hcode with rfl | ⟨rfl, -⟩
      · exact .inl hs
      · exact .inr hs
    · have hfeed : ctx.feed c = ctx.feedJs mode c := by simp only [Context.feed, hs]
      refine .enclosed (fun h => hcode (.inl ?_)) (fun h => ?_) fun h => ?_
      · rw [hs] at h
        exact State.js.inj h
      · rw [hfeed]
        exact (Context.word_feedJs hcode).trans h
      · rw [hfeed] at h
        exact Context.isWordChar_of_feedJs hcode hs h
  | _ => rw [hs] at hentry; cases hentry

/-- The laws of a look-behind hold for words of JS. -/
theorem lawful_lookBehind : lookBehind.Lawful where
  entry := rfl
  reads _ c h := lookBehind_reads h c
  word_feedCode := Context.word_feedJsCode
  state_feedCode ctx c hs hc := by
    show (ctx.feedJsCode c).state = _
    rw [Context.feedJsCode_wordChar ctx hc]
    exact hs

end Js

namespace Context

/-! ### Reading with a buffer -/

namespace Buffered

/-- Reading code with the buffer has a result, which is that of reading without it. -/
theorem exists_feedJsCode? (b : Buffered) (c : Char) :
    ∃ next, b.feedJsCode? c = some next ∧ next.unbuffered = b.unbuffered.feedJsCode c := by
  by_cases hc : Js.isWordChar c = true
  -- a letter is stored, and the word is compared right after that
  · obtain ⟨buffer, hpush, hword⟩ := b.buffer.exists_push? c
    refine ⟨_, by
      rw [feedJsCode?, if_pos hc, hpush]
      simp only [Option.bind_eq_bind, Option.bind_some, buffer.precedesRegexp?_eq]
      rfl, ?_⟩
    rw [feedJsCode_wordChar _ hc]
    simp only [unbuffered, withWord, hword]
    rfl
  · refine ⟨_, by rw [feedJsCode?, if_neg hc], ?_⟩
    rw [unbuffered, unbuffered, feedJsCode_withWord _ _ hc]
    exact congrArg _ (Js.WordBuffer.word_of_size rfl)

/-- **Reading a character always has a result**, and it is the one without a buffer. -/
theorem exists_feed? (b : Buffered) (hjs : b.context.state.entry = .js .code) (c : Char) :
    ∃ next, b.feed? c = some next ∧ next.unbuffered = b.unbuffered.feed c := by
  cases hs : b.context.state with
  | js mode =>
    have hfeed : b.unbuffered.feed c = b.unbuffered.feedJs mode c := by
      simp only [feed, show b.unbuffered.state = .js mode from hs]
    by_cases hcode : b.context.ReadsCode mode c
    · rcases hcode with rfl | ⟨rfl, hline, hblock, hslash⟩
      · obtain ⟨next, hnext, heq⟩ := b.exists_feedJsCode? c
        exact ⟨next, by simpa only [feed?, hs] using hnext, heq.trans hfeed.symm⟩
      -- a division is read first, and the character as code after it
      · have hdivision : b.unbuffered.slash = .division := hslash
        obtain ⟨next, hnext, heq⟩ := exists_feedJsCode? { b with
          context := { b.context with state := .js .code, slash := .regexp, lastChar := '/' } } c
        refine ⟨next, ?_, heq.trans ?_⟩
        · simpa [feed?, hs, feedJsSlash?, hline, hblock, hslash] using hnext
        · rw [hfeed]
          simp only [feedJs, feedJsSlash, if_neg hline, if_neg hblock, hdivision]
          rfl
    -- the buffer stays as it is, and so does the word
    · refine ⟨{ b with context := b.context.feedJs mode c }, ?_,
        (feedJs_withWord _ _ hcode).symm.trans hfeed.symm⟩
      cases mode with
      | code => exact absurd (.inl rfl) hcode
      | slash => simp only [feed?, hs, feedJsSlash?, if_pos (not_readsCode_slash hcode), feedJs]
      | _ => simp only [feed?, feed, hs]
  | _ => rw [hs] at hjs; cases hjs

theorem exists_feedAll? (b : Buffered) (hjs : b.context.state.entry = .js .code) (t : Text) :
    ∃ next, b.feedAll? t = some next ∧ next.unbuffered = b.unbuffered.feedAll t := by
  induction t generalizing b with
  | nil => exact ⟨b, rfl, rfl⟩
  | cons c t ih =>
    obtain ⟨next, hfeed, hnext⟩ := b.exists_feed? hjs c
    have hentry : next.context.state.entry = .js .code := by
      have hplace := (samePlace_feed b.unbuffered c).entry
      rw [← hnext] at hplace
      exact hplace.trans hjs
    obtain ⟨last, hrest, hlast⟩ := ih next hentry
    refine ⟨last, ?_, by rw [hlast, hnext, feedAll_cons]⟩
    rw [feedAll?, List.foldlM_cons, hfeed]
    exact hrest

end Buffered

/-! ### The slash after a word -/

variable {ctx : Context} {c : Char}

/-- The letter that a word ends with has settled what a `/` after the word is. -/
theorem slash_feed_wordChar (hjs : ctx.state.entry = .js .code) (hc : Js.isWordChar c = true)
    (hcode : (ctx.feed c).state = .js .code) :
    (ctx.feed c).slash = if (ctx.feed c).word.precedesRegexp then .regexp else .division := by
  cases Js.lookBehind_reads hjs c with
  | asCode _ before _ _ hfeed =>
    have hletter : ctx.feed c = _ := hfeed.trans (feedJsCode_wordChar before hc)
    rw [hletter]
  | enclosed _ _ hnext =>
    have hnot : Js.isWordChar c = false := hnext (.inl hcode)
    rw [hc] at hnot
    cases hnot

/-- **After a word a `/` starts a regular expression exactly if the word is a keyword** that an
operand follows. The word is the longest run of letters right before the `/`, whatever literals,
comments and divisions come before it. A word that is too long for a keyword or goes beyond ASCII
is none, and reading it with a buffer does not leave the buffer, whatever earlier words have left
there. -/
theorem slash_after_word {buffer : Js.WordBuffer} {t : Text} (hs : ctx.state = .js .code)
    (hempty : ctx.word = .empty) (hbuffer : buffer.size = 0) (hc : Js.isWordChar c = true)
    (hcode : (ctx.feedAll (t ++ [c])).state = .js .code) :
    let word := (t ++ [c]).rtakeWhile Js.isWordChar
    let next := ctx.feedAll (t ++ [c])
    (next.slash = .regexp ↔ word ∈ Js.keywords)
      ∧ (next.slash = .division ↔ word ∉ Js.keywords)
      ∧ (Js.keywordBound < word.length ∨ (∃ d ∈ word, isAscii d = false) → next.slash = .division)
      ∧ ∃ b, (Buffered.mk ctx buffer).feedAll? (t ++ [c]) = some b ∧ b.unbuffered = next := by
  intro word next
  -- the word that is remembered is the run of letters, and its last letter has been looked up
  have hremembered : next.word = word.foldl Js.Word.push .empty :=
    (Js.lookBehind.remembers_feedAll Js.lawful_lookBehind hs hempty (t ++ [c])).inCode (.inl hcode)
  have hword : next.word.precedesRegexp = true ↔ word ∈ Js.keywords := by
    rw [hremembered]
    exact Js.precedesRegexp_foldl_push_iff
  have hslash : next.slash = if next.word.precedesRegexp then .regexp else .division := by
    simp only [next, feedAll_append_singleton] at hcode ⊢
    exact slash_feed_wordChar (by rw [(samePlace_feedAll ctx t).entry, hs]; rfl) hc hcode
  have hdivision : next.slash = .division ↔ word ∉ Js.keywords := by
    rw [hslash, ← hword]
    split_ifs with h <;> simp [h]
  refine ⟨?_, hdivision, fun hlong => hdivision.mpr fun hmem => ?_, ?_⟩
  · rw [hslash, ← hword]
    split_ifs with h <;> simp [h]
  · obtain ⟨hascii, hlength⟩ := Js.short_of_mem_keywords hmem
    rcases hlong with hlong | ⟨d, hd, hwide⟩
    · exact absurd hlength (Nat.not_le_of_lt hlong)
    · rw [List.all_eq_true.mp hascii d hd] at hwide
      cases hwide
  · obtain ⟨b, hb, heq⟩ := (Buffered.mk ctx buffer).exists_feedAll? (by rw [hs]; rfl) (t ++ [c])
    have hstart : (Buffered.mk ctx buffer).unbuffered = ctx := by
      rw [Buffered.unbuffered, withWord, Js.WordBuffer.word_of_size hbuffer, ← hempty]
    exact ⟨b, hb, by rw [heq, hstart]⟩

/-- A string, a division, a word beyond ASCII and a line's end before the longest keyword. -/
theorem regexp_after_instanceof :
    let ctx := elementContent (some .script)
    let buffer : Js.WordBuffer := { bytes := Vector.replicate _ 120, size := 0 }
    let t := "x = 'in' / caf\u00e9in\ninstanceo".toList
    ctx.state = .js .code ∧ ctx.word = .empty ∧ buffer.size = 0 ∧ Js.isWordChar 'f' = true
      ∧ (ctx.feedAll (t ++ ['f'])).state = .js .code
      ∧ (t ++ ['f']).rtakeWhile Js.isWordChar = "instanceof".toList
      ∧ (ctx.feedAll (t ++ ['f'])).slash = .regexp
      ∧ ((Buffered.mk ctx buffer).feedAll? (t ++ ['f'])).isSome = true := by
  intro ctx buffer t
  have hcode : (ctx.feedAll (t ++ ['f'])).state = .js .code := by decide +kernel
  have hword : (t ++ ['f']).rtakeWhile Js.isWordChar = "instanceof".toList := by decide +kernel
  obtain ⟨hregexp, -, -, b, hb, -⟩ :=
    @slash_after_word ctx 'f' buffer t rfl rfl rfl (by decide) hcode
  refine ⟨rfl, rfl, rfl, by decide, hcode, hword, hregexp.mpr ?_, by rw [hb]; rfl⟩
  rw [hword]
  decide

end Context

end SafeMarkup
