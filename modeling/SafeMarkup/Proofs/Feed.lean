import SafeMarkup.Context.Feed

/-!
# What reading a character leaves as it is

A character that is read by the language at the cursor moves the cursor within that language only:
the element, the attribute and the delimiter stay, and so does the language. What is remembered of
the previous characters is remembered only where it matters.
-/

namespace SafeMarkup

/-- The state in which the language at the cursor starts. -/
def State.entry : State → State
  | .js _ => .js .code
  | .css _ => .css .code
  | state => state

namespace Context

/-- `next` lies in the same piece of the same language as `ctx`. -/
structure SamePlace (ctx next : Context) : Prop where
  element : next.element = ctx.element
  attr : next.attr = ctx.attr
  delim : next.delim = ctx.delim
  entry : next.state.entry = ctx.state.entry

/-- What is remembered of the previous characters matters where the cursor is. -/
structure Remembers (ctx : Context) : Prop where
  escaping : ctx.flags.escaping = true → ctx.state.allowsEscapes = true
  inClass : ctx.flags.inClass = true → ctx.state = .js .regexp
  afterStar : ctx.flags.afterStar = true →
    ctx.state = .js .blockComment ∨ ctx.state = .css .blockComment
  word : ctx.word.IsBounded

variable {ctx next : Context} {c : Char}

theorem SamePlace.refl : ctx.SamePlace ctx := ⟨rfl, rfl, rfl, rfl⟩

theorem SamePlace.trans {last : Context} (h : ctx.SamePlace next) (h' : next.SamePlace last) :
    ctx.SamePlace last :=
  ⟨h'.element.trans h.element, h'.attr.trans h.attr, h'.delim.trans h.delim,
    h'.entry.trans h.entry⟩

/-! ### The place -/

/-- A string is read within its place, if the code after it is of the same language. -/
theorem samePlace_feedString {quote : Char} {code : State} {endsLine : Char → Bool}
    (h : code.entry = ctx.state.entry) :
    ctx.SamePlace (ctx.feedString quote code endsLine c) := by
  unfold feedString
  split
  · exact ⟨rfl, rfl, rfl, rfl⟩
  split
  · exact ⟨rfl, rfl, rfl, rfl⟩
  split
  · exact ⟨rfl, rfl, rfl, h⟩
  split
  · exact ⟨rfl, rfl, rfl, h⟩
  · exact .refl

theorem samePlace_feedBlockComment {code : State} (h : code.entry = ctx.state.entry) :
    ctx.SamePlace (ctx.feedBlockComment code c) := by
  unfold feedBlockComment
  split
  · exact ⟨rfl, rfl, rfl, h⟩
  · exact ⟨rfl, rfl, rfl, rfl⟩

theorem samePlace_feedJsToken : ctx.SamePlace (ctx.feedJsToken c) := by
  unfold feedJsToken
  repeat' split
  all_goals exact ⟨rfl, rfl, rfl, rfl⟩

/-- Code of JS is read within its place. -/
theorem samePlace_feedJsCode {mode : Js.Mode} (hs : ctx.state = .js mode) :
    ctx.SamePlace (ctx.feedJsCode c) := by
  -- what opens a literal or a comment stays in the language
  have opens (mode' : Js.Mode) :
      ctx.SamePlace (afterJsChar { ctx with state := .js mode' } c) :=
    ⟨rfl, rfl, rfl, by rw [hs]; rfl⟩
  simp only [feedJsCode]
  split
  · exact opens .doubleQuoted
  split
  · exact opens .singleQuoted
  split
  · exact opens .template
  split
  · exact opens .slash
  split
  · exact ⟨rfl, rfl, rfl, rfl⟩
  · exact samePlace_feedJsToken.trans ⟨rfl, rfl, rfl, rfl⟩

theorem samePlace_feedJsRegexp {mode : Js.Mode} (hs : ctx.state = .js mode) :
    ctx.SamePlace (ctx.feedJsRegexp c) := by
  unfold feedJsRegexp
  repeat' split
  all_goals exact ⟨rfl, rfl, rfl, by first | rfl | (rw [hs]; rfl)⟩

theorem samePlace_feedJs {mode : Js.Mode} (hs : ctx.state = .js mode) :
    ctx.SamePlace (ctx.feedJs mode c) := by
  have moved (mode' : Js.Mode) (slash : Js.Slash) (lastChar : Char) :
      ctx.SamePlace { ctx with state := .js mode', slash, lastChar } :=
    ⟨rfl, rfl, rfl, by rw [hs]; rfl⟩
  have hentry : (State.js .code).entry = ctx.state.entry := by rw [hs]; rfl
  cases mode with
  | code => exact samePlace_feedJsCode hs
  | slash =>
    -- what the slash is is settled first, and then the character is read again, after it
    simp only [feedJs, feedJsSlash]
    split
    · exact moved .lineComment _ _
    split
    · exact moved .blockComment _ _
    split
    · exact (moved .regexp _ _).trans (samePlace_feedJsRegexp rfl)
    · exact (moved .code .regexp '/').trans (samePlace_feedJsCode rfl)
  | doubleQuoted | singleQuoted | template =>
    simp only [feedJs]
    exact samePlace_feedString hentry
  | regexp => exact samePlace_feedJsRegexp hs
  | blockComment => exact samePlace_feedBlockComment hentry
  | lineComment =>
    simp only [feedJs]
    split
    · exact moved .code _ _
    · exact .refl

/-- Code of CSS is read within its place. -/
theorem samePlace_feedCssCode {mode : Css.Mode} (hs : ctx.state = .css mode) :
    ctx.SamePlace (ctx.feedCssCode c) := by
  unfold feedCssCode
  repeat' split
  all_goals exact ⟨rfl, rfl, rfl, by first | rfl | (rw [hs]; rfl)⟩

theorem samePlace_feedCssQuotedUrl {mode : Css.Mode} (hs : ctx.state = .css mode) {quote : Char} :
    ctx.SamePlace (ctx.feedCssQuotedUrl quote c) := by
  have hstring : ctx.SamePlace (ctx.feedString quote (.css .code) Css.isLineEnd c) :=
    samePlace_feedString (by rw [hs]; rfl)
  simp only [feedCssQuotedUrl]
  split
  · exact hstring.trans ⟨rfl, rfl, rfl, rfl⟩
  · exact hstring

theorem samePlace_feedCss {mode : Css.Mode} (hs : ctx.state = .css mode) :
    ctx.SamePlace (ctx.feedCss mode c) := by
  -- a change of mode stays in the language, so it is no change of place
  have moved (mode' : Css.Mode) (urlPart : Url.Part) :
      ctx.SamePlace { ctx with state := .css mode', urlPart } :=
    ⟨rfl, rfl, rfl, by rw [hs]; rfl⟩
  have hentry : (State.css .code).entry = ctx.state.entry := by rw [hs]; rfl
  cases mode with
  | code => exact samePlace_feedCssCode hs
  | slash =>
    -- after a slash code may go on, which is two steps in one
    simp only [feedCss, feedCssSlash]
    split
    · exact moved .blockComment _
    split
    · exact moved .lineComment _
    · exact (moved .code _).trans (samePlace_feedCssCode rfl)
  | doubleQuoted | singleQuoted =>
    simp only [feedCss]
    exact samePlace_feedString hentry
  | urlOpen =>
    simp only [feedCss, feedCssUrlOpen]
    repeat' split
    all_goals first | exact .refl | exact moved _ _
  | url =>
    simp only [feedCss, feedCssUrl]
    split
    · exact moved .code _
    · exact ⟨rfl, rfl, rfl, rfl⟩
  | doubleQuotedUrl => exact samePlace_feedCssQuotedUrl hs
  | singleQuotedUrl => exact samePlace_feedCssQuotedUrl hs
  | blockComment => exact samePlace_feedBlockComment hentry
  | lineComment =>
    simp only [feedCss]
    split
    · exact moved .code _
    · exact .refl

/-- **A character moves the cursor within one language only.** -/
theorem samePlace_feed (ctx : Context) (c : Char) : ctx.SamePlace (ctx.feed c) := by
  unfold feed
  split
  · exact ⟨rfl, rfl, rfl, rfl⟩
  · next hs => exact samePlace_feedJs hs
  · next hs => exact samePlace_feedCss hs
  · exact .refl

theorem samePlace_feedAll (ctx : Context) (t : Text) : ctx.SamePlace (ctx.feedAll t) := by
  induction t generalizing ctx with
  | nil => exact .refl
  | cons c t ih => exact (samePlace_feed ctx c).trans (ih _)

/-! ### What is remembered -/

/-- Nothing is remembered of a previous character. -/
theorem remembers_of_flags (hf : ctx.flags = {}) (hw : ctx.word.IsBounded) : ctx.Remembers :=
  ⟨by simp [hf], by simp [hf], by simp [hf], hw⟩

/-- In code nothing but the word is remembered. -/
theorem Remembers.flags_eq (h : ctx.Remembers) (hs : ctx.state.allowsEscapes = false)
    (hblock : ctx.state ≠ .js .blockComment) (hblock' : ctx.state ≠ .css .blockComment) :
    ctx.flags = {} := by
  obtain ⟨hesc, hclass, hstar, -⟩ := h
  -- each flag would need a state that `ctx` is not in
  cases hf : ctx.flags with
  | mk escaping inClass afterStar =>
    simp only [hf] at hesc hclass hstar
    have h1 : escaping = false := by
      cases escaping
      · rfl
      · rw [hesc rfl] at hs; cases hs
    have h2 : inClass = false := by
      cases inClass
      · rfl
      · rw [hclass rfl] at hs; cases hs
    have h3 : afterStar = false := by
      cases afterStar
      · rfl
      · rcases hstar rfl with e | e <;> contradiction
    rw [h1, h2, h3]

theorem Remembers.inClass_eq (h : ctx.Remembers) (hs : ctx.state ≠ .js .regexp) :
    ctx.flags.inClass = false :=
  Bool.eq_false_iff.mpr fun hf => hs (h.inClass hf)

theorem Remembers.afterStar_eq (h : ctx.Remembers) (hs : ctx.state.allowsEscapes = true) :
    ctx.flags.afterStar = false := by
  refine Bool.eq_false_iff.mpr fun hf => ?_
  rcases h.afterStar hf with e | e <;> simp [e, State.allowsEscapes] at hs

/-- A string remembers no more than a backslash. -/
theorem remembers_feedString {quote : Char} {code : State} {endsLine : Char → Bool}
    (h : ctx.Remembers) (hs : ctx.state.allowsEscapes = true) (hr : ctx.state ≠ .js .regexp) :
    (ctx.feedString quote code endsLine c).Remembers := by
  have hclass := h.inClass_eq hr
  have hstar := h.afterStar_eq hs
  -- where the string ends, `escaping` has to be clear, for code allows no escapes
  unfold feedString
  split
  · exact ⟨by simp, h.inClass, h.afterStar, h.word⟩
  next hesc =>
    split
    · exact ⟨fun _ => hs, h.inClass, h.afterStar, h.word⟩
    split
    · exact ⟨by simp [hesc], by simp [hclass], by simp [hstar], h.word⟩
    split
    · exact ⟨by simp [hesc], by simp [hclass], by simp [hstar], h.word⟩
    · exact h

/-- A block comment remembers no more than a star. -/
theorem remembers_feedBlockComment {code : State} (h : ctx.Remembers)
    (hs : ctx.state = .js .blockComment ∨ ctx.state = .css .blockComment) :
    (ctx.feedBlockComment code c).Remembers := by
  have hallows : ctx.state.allowsEscapes = false := by rcases hs with e | e <;> rw [e] <;> rfl
  have hesc : ctx.flags.escaping = false := by
    refine Bool.eq_false_iff.mpr fun hf => ?_
    rw [h.escaping hf] at hallows
    cases hallows
  have hclass : ctx.flags.inClass = false :=
    h.inClass_eq (by rcases hs with e | e <;> simp [e])
  unfold feedBlockComment
  split
  · exact ⟨by simp [hesc], by simp [hclass], by simp, h.word⟩
  · exact ⟨by simp [hesc], by simp [hclass], fun _ => hs, h.word⟩

theorem isBounded_empty : Js.Word.empty.IsBounded := Nat.zero_le _

theorem isBounded_feedJsToken (h : ctx.word.IsBounded) : (ctx.feedJsToken c).word.IsBounded := by
  unfold feedJsToken
  repeat' split
  all_goals first | exact h | exact Js.Word.isBounded_push _ _

theorem flags_feedJsToken : (ctx.feedJsToken c).flags = ctx.flags := by
  unfold feedJsToken
  repeat' split
  all_goals rfl

theorem flags_feedJsCode : (ctx.feedJsCode c).flags = ctx.flags := by
  simp only [feedJsCode, afterJsChar]
  repeat' split
  all_goals first | rfl | exact flags_feedJsToken

/-- A word takes one more letter only as long as there is room for it. -/
theorem isBounded_afterJsChar (h : ctx.word.IsBounded) : (ctx.afterJsChar c).word.IsBounded := by
  simp only [afterJsChar]
  split
  · exact h
  · exact isBounded_empty

/-- Code of JS remembers its word, and nothing else. -/
theorem remembers_feedJsCode (hf : ctx.flags = {}) (hw : ctx.word.IsBounded) :
    (ctx.feedJsCode c).Remembers := by
  refine remembers_of_flags (flags_feedJsCode.trans hf) ?_
  simp only [feedJsCode]
  refine isBounded_afterJsChar ?_
  repeat' split
  all_goals first | exact hw | exact isBounded_feedJsToken hw

/-- A regular expression remembers a backslash and its class. -/
theorem remembers_feedJsRegexp (h : ctx.Remembers) (hs : ctx.state = .js .regexp) :
    (ctx.feedJsRegexp c).Remembers := by
  have hallows : ctx.state.allowsEscapes = true := by rw [hs]; rfl
  have hstar := h.afterStar_eq hallows
  unfold feedJsRegexp
  split
  · exact ⟨by simp, h.inClass, h.afterStar, h.word⟩
  next hesc =>
    split
    · exact ⟨fun _ => hallows, h.inClass, h.afterStar, h.word⟩
    split
    · exact ⟨h.escaping, fun _ => hs, h.afterStar, h.word⟩
    split
    · exact ⟨h.escaping, fun _ => hs, h.afterStar, h.word⟩
    split
    · -- a slash ends the literal outside of classes only
      next hclose => exact ⟨by simp [hesc], by simp_all, by simp [hstar], h.word⟩
    split
    · exact remembers_of_flags rfl h.word
    · exact h

/-- What JS remembers is about the state that it is in. -/
theorem remembers_feedJs {mode : Js.Mode} (h : ctx.Remembers) (hs : ctx.state = .js mode) :
    (ctx.feedJs mode c).Remembers := by
  cases mode with
  | code =>
    have hf := h.flags_eq (by rw [hs]; rfl) (by simp [hs]) (by simp [hs])
    exact remembers_feedJsCode hf h.word
  | slash =>
    have hf := h.flags_eq (by rw [hs]; rfl) (by simp [hs]) (by simp [hs])
    -- the slash may turn out to start a literal, and the character is read in the state that it
    -- leads to
    simp only [feedJs, feedJsSlash]
    split
    · exact remembers_of_flags hf h.word
    split
    · exact remembers_of_flags hf h.word
    split
    · exact remembers_feedJsRegexp (remembers_of_flags hf h.word) rfl
    · exact remembers_feedJsCode hf h.word
  -- of the rest only strings and regular expressions have escapes
  | doubleQuoted | singleQuoted | template =>
    simp only [feedJs]
    exact remembers_feedString h (by rw [hs]; rfl) (by simp [hs])
  | regexp => exact remembers_feedJsRegexp h hs
  | blockComment => exact remembers_feedBlockComment h (Or.inl hs)
  | lineComment =>
    have hf := h.flags_eq (by rw [hs]; rfl) (by simp [hs]) (by simp [hs])
    simp only [feedJs]
    split
    · exact remembers_of_flags hf h.word
    · exact h

/-- Code of CSS remembers nothing that is flagged. -/
theorem remembers_feedCssCode (hf : ctx.flags = {}) (hw : ctx.word.IsBounded) :
    (ctx.feedCssCode c).Remembers := by
  unfold feedCssCode
  repeat' split
  all_goals exact remembers_of_flags hf hw

/-- A URL in quotes remembers a backslash, like any string. -/
theorem remembers_feedCssQuotedUrl {quote : Char} (h : ctx.Remembers)
    (hs : ctx.state.allowsEscapes = true) (hr : ctx.state ≠ .js .regexp) :
    (ctx.feedCssQuotedUrl quote c).Remembers := by
  have hstring : (ctx.feedString quote (.css .code) Css.isLineEnd c).Remembers :=
    remembers_feedString h hs hr
  simp only [feedCssQuotedUrl]
  split
  · exact ⟨hstring.escaping, hstring.inClass, hstring.afterStar, hstring.word⟩
  · exact hstring

/-- What CSS remembers is about the state that it is in. -/
theorem remembers_feedCss {mode : Css.Mode} (h : ctx.Remembers) (hs : ctx.state = .css mode) :
    (ctx.feedCss mode c).Remembers := by
  cases mode with
  | code | slash | urlOpen | url | lineComment =>
    -- in these modes no flag is set, and each of their rules leads to one of the three
    have hf := h.flags_eq (by rw [hs]; rfl) (by simp [hs]) (by simp [hs])
    simp only [feedCss, feedCssSlash, feedCssUrlOpen, feedCssUrl]
    repeat' split
    all_goals first
      | exact h
      | exact remembers_of_flags hf h.word
      | exact remembers_feedCssCode hf h.word
  | doubleQuoted | singleQuoted =>
    simp only [feedCss]
    exact remembers_feedString h (by rw [hs]; rfl) (by simp [hs])
  | doubleQuotedUrl | singleQuotedUrl =>
    exact remembers_feedCssQuotedUrl h (by rw [hs]; rfl) (by simp [hs])
  | blockComment => exact remembers_feedBlockComment h (Or.inr hs)

/-- **What is remembered is forgotten where it does not matter.** -/
theorem Remembers.feed (h : ctx.Remembers) (c : Char) : (ctx.feed c).Remembers := by
  unfold Context.feed
  split
  · exact ⟨h.escaping, h.inClass, h.afterStar, h.word⟩
  · next hs => exact remembers_feedJs h hs
  · next hs => exact remembers_feedCss h hs
  · exact h

/-! ### Strings -/

/-- A string goes on, or code follows it. -/
theorem state_feedString (ctx : Context) (quote : Char) (code : State) (endsLine : Char → Bool)
    (c : Char) : (ctx.feedString quote code endsLine c).state = ctx.state
      ∨ (ctx.feedString quote code endsLine c).state = code := by
  unfold feedString
  repeat' split
  all_goals first | exact .inl rfl | exact .inr rfl

/-- Is the text at `ctx` read as that of a string? -/
def ReadsString (ctx : Context) (quote : Char) (code : State) (endsLine : Char → Bool) : Prop :=
  ∀ flags c, feed { ctx with flags } c = feedString { ctx with flags } quote code endsLine c

section Strings

variable {quote : Char} {code : State} {endsLine : Char → Bool} {t : Text}

/-- To forget a backslash that is not there changes nothing. -/
theorem flags_eq_of_escaping (he : ctx.flags.escaping = false) :
    { ctx with flags := { ctx.flags with escaping := false } } = ctx := by
  cases ctx with
  | mk state element attr delim urlPart slash flags =>
    cases flags
    cases he
    rfl

/-- A string goes on as long as there is neither its quote nor a backslash. -/
theorem feedAll_plain (hr : ctx.ReadsString quote code endsLine) (he : ctx.flags.escaping = false)
    (ht : ∀ c ∈ t, c ≠ '\\' ∧ c ≠ quote ∧ endsLine c = false) : ctx.feedAll t = ctx := by
  induction t with
  | nil => rfl
  | cons c t ih =>
    obtain ⟨hback, hquote, hline⟩ := ht c List.mem_cons_self
    have hstep : ctx.feed c = ctx := by
      rw [hr ctx.flags c]
      simp [feedString, he, hback, hquote, hline]
    rw [feedAll_cons, hstep]
    exact ih fun d hd => ht d (List.mem_cons_of_mem c hd)

/-- A string goes on after an escape as it did before it. -/
theorem feedAll_escape (hr : ctx.ReadsString quote code endsLine) (he : ctx.flags.escaping = false)
    (c : Char) (ht : ∀ c ∈ t, c ≠ '\\' ∧ c ≠ quote ∧ endsLine c = false) :
    ctx.feedAll ('\\' :: c :: t) = ctx := by
  have hback : ctx.feed '\\' = { ctx with flags := { ctx.flags with escaping := true } } := by
    rw [hr ctx.flags '\\']
    simp [feedString, he]
  have hnext : feed { ctx with flags := { ctx.flags with escaping := true } } c = ctx := by
    rw [hr _ c]
    simp only [feedString, ↓reduceIte]
    exact flags_eq_of_escaping he
  rw [feedAll_cons, feedAll_cons, hback, hnext]
  exact feedAll_plain hr he ht

/-- A backslash after a backslash is over at once. -/
theorem feed_backslash (hr : ctx.ReadsString quote code endsLine)
    (he : ctx.flags.escaping = true) :
    ctx.feed '\\' = { ctx with flags := { ctx.flags with escaping := false } } := by
  rw [hr ctx.flags '\\']
  simp [feedString, he]

end Strings

/-! ### Block comments -/

/-- The same place in a block comment, with or without a `*` before it. -/
def withStar (ctx : Context) (star : Bool) : Context := { ctx with flags.afterStar := star }

/-- A star does not change the state. -/
@[simp] theorem withStar_state (star : Bool) : (ctx.withStar star).state = ctx.state := rfl

@[simp] theorem withStar_afterStar (star : Bool) :
    (ctx.withStar star).flags.afterStar = star := rfl

/-- Only the last one counts. -/
@[simp] theorem withStar_withStar (a b : Bool) : (ctx.withStar a).withStar b = ctx.withStar b := rfl

/-- In a block comment only a `/` can matter, and only right after a `*`. -/
theorem feed_blockComment
    (hs : ctx.state = .js .blockComment ∨ ctx.state = .css .blockComment)
    (hc : c ≠ '/' ∨ ctx.flags.afterStar = false) : ctx.feed c = ctx.withStar (c == '*') := by
  have hnot : ¬ (c = '/' ∧ ctx.flags.afterStar = true) := by
    rcases hc with hc | hc
    · exact fun h => hc h.1
    · exact fun h => by rw [hc] at h; cases h.2
  rcases hs with hs | hs
  · simp only [feed, hs, feedJs, feedBlockComment, if_neg hnot, withStar]
  · simp only [feed, hs, feedCss, feedBlockComment, if_neg hnot, withStar]

/-- Is there a `*` before the place in a block comment where the text ends? -/
def endsInStar (ctx : Context) (t : Text) : Bool :=
  (t.getLast?.map (· == '*')).getD ctx.flags.afterStar

theorem endsInStar_append (a b : Text) :
    ctx.endsInStar (a ++ b) = (ctx.withStar (ctx.endsInStar a)).endsInStar b := by
  rw [endsInStar, endsInStar, List.getLast?_append]
  cases b.getLast? <;> rfl

theorem endsInStar_cons (c : Char) (t : Text) :
    ctx.endsInStar (c :: t) = (ctx.withStar (c == '*')).endsInStar t :=
  endsInStar_append [c] t

/-- A block comment goes on as long as no `/` comes right after a `*`. -/
theorem feedAll_blockComment_of_open {t : Text}
    (hs : ctx.state = .js .blockComment ∨ ctx.state = .css .blockComment)
    (hfirst : ctx.flags.afterStar = true → t.head? ≠ some '/') (ht : ¬ ['*', '/'] <:+: t) :
    ctx.feedAll t = ctx.withStar (ctx.endsInStar t) := by
  induction t generalizing ctx with
  | nil => rfl
  | cons c t ih =>
    have hc : c ≠ '/' ∨ ctx.flags.afterStar = false := by
      cases hstar : ctx.flags.afterStar with
      | false => exact .inr rfl
      | true => exact .inl (by simpa using hfirst hstar)
    -- a `*` is not followed by a `/`, for the two would end the comment
    have hnext : (ctx.withStar (c == '*')).flags.afterStar = true → t.head? ≠ some '/' := by
      rintro hstar hhead
      obtain ⟨rest, rfl⟩ := List.head?_eq_some_iff.mp hhead
      rw [withStar_afterStar, beq_iff_eq] at hstar
      exact ht ⟨[], rest, by rw [hstar]; rfl⟩
    rw [feedAll_cons, feed_blockComment hs hc,
      ih (hs.imp (withStar_state _).trans (withStar_state _).trans) hnext
        fun h => ht (List.infix_cons h),
      endsInStar_cons, withStar_withStar]

/-- Text without a slash only decides whether a block comment ends in a star. -/
theorem feedAll_blockComment {t : Text}
    (hs : ctx.state = .js .blockComment ∨ ctx.state = .css .blockComment) (ht : '/' ∉ t) :
    ctx.feedAll t = ctx.withStar (ctx.endsInStar t) :=
  feedAll_blockComment_of_open hs (fun _ hhead => ht (List.mem_of_mem_head? hhead))
    fun h => ht (h.subset (by simp))

/-- What leaves the context as it is piece by piece does so as a whole. -/
theorem feedAll_flatMap {f : Char → Text} {t : Text} (h : ∀ c ∈ t, ctx.feedAll (f c) = ctx) :
    ctx.feedAll (t.flatMap f) = ctx := by
  induction t with
  | nil => rfl
  | cons c t ih =>
    rw [List.flatMap_cons, feedAll_append, h c List.mem_cons_self]
    exact ih fun d hd => h d (List.mem_cons_of_mem c hd)

end Context

end SafeMarkup
