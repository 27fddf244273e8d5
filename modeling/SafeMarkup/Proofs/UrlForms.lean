import SafeMarkup.Proofs.LookBehind

/-!
# Where `url()` forms begin

CSS remembers how much of `url` the word before the cursor has spelled. That word is the longest run
of letters right before the cursor (`Css.lawful_lookBehind`), and it is remembered as `url` exactly
if it is `url`, in any letter case (`foldl_next_eq_url_iff`). So a `(` in code opens a form after
this word and nowhere else (`opens_url_form_iff`). No `url` at the end of a string, a comment,
another form or a longer word opens one, and nothing that comes before a `url` hides it.
-/

namespace SafeMarkup

namespace Css

namespace UrlWord

variable {c : Char} {t : Text}

/-! ### Words as they are remembered -/

/-- What is remembered of a word in lower case. -/
def ofLower : Text → UrlWord
  | [] => .none
  | ['u'] => .u
  | ['u', 'r'] => .ur
  | ['u', 'r', 'l'] => .url
  | _ => .other

theorem ofLower_eq_url_iff : ofLower t = .url ↔ t = "url".toList := by
  unfold ofLower
  split <;> simp_all

/-- What is remembered follows the word letter by letter, in lower case. -/
theorem next_ofLower (hc : isWordChar c = true) (t : Text) :
    (ofLower t).next c = ofLower (t ++ [c.toLower]) := by
  fun_cases ofLower t with
  | case1 | case2 | case3 | case4 =>
    simp only [next, hc, List.nil_append, List.cons_append]
    split <;> simp_all [ofLower]
  | case5 t hnil hu hur _ =>
    -- a word that one more letter makes a start of `url` is a start of `url` itself
    have hlonger {s : Text} (hs : t = s.dropLast → False) : t ++ [c.toLower] = s → False :=
      fun h => hs (by rw [← h, List.dropLast_concat])
    have hother : ofLower (t ++ [c.toLower]) = .other := by
      rw [ofLower]
      · simp
      · exact hlonger hnil
      · exact hlonger hu
      · exact hlonger hur
    simp [next, hc, hother]

/-- After a whole word the state is that of the word in lower case. -/
theorem foldl_next (h : ∀ c ∈ t, isWordChar c = true) :
    t.foldl next .none = ofLower (Text.lower t) := by
  induction t using List.reverseRecOn with
  | nil => rfl
  | append_singleton t c ih =>
    rw [List.forall_mem_append, List.forall_mem_singleton] at h
    rw [List.foldl_append, List.foldl_cons, List.foldl_nil, ih h.1, next_ofLower h.2,
      Text.lower_append]
    rfl

/-- **A word is remembered as `url` exactly if it is**, in any letter case. -/
theorem foldl_next_eq_url_iff (h : ∀ c ∈ t, isWordChar c = true) :
    t.foldl next .none = .url ↔ Text.sameName t "url".toList = true := by
  rw [foldl_next h, ofLower_eq_url_iff, Text.sameName, beq_iff_eq]
  exact Iff.rfl

end UrlWord

end Css

namespace Context

variable {ctx : Context} {c quote : Char} {mode : Css.Mode}

/-! ### Characters of code -/

/-- A letter of a word only makes the word longer. -/
theorem feedCssCode_wordChar (ctx : Context) (hc : Css.isWordChar c = true) :
    ctx.feedCssCode c = { ctx with urlWord := ctx.urlWord.next c } := by
  have hne {d : Char} (hd : Css.isWordChar d = false) : c ≠ d := ne_of_class hc hd
  simp [feedCssCode, hne (d := '"') rfl, hne (d := '\'') rfl, hne (d := '/') rfl,
    hne (d := '(') rfl]

/-- Any other character of code ends the word, whatever it was. -/
theorem urlWord_feedCssCode (ctx : Context) (c : Char) :
    (ctx.feedCssCode c).urlWord = if Css.isWordChar c then ctx.urlWord.next c else .none := by
  split
  · next hc => rw [feedCssCode_wordChar ctx hc]
  · next hc =>
    have hnone : ctx.urlWord.next c = .none :=
      Css.UrlWord.next_of_not_isWordChar (by simpa using hc)
    unfold feedCssCode
    split_ifs
    all_goals first | rfl | exact hnone

/-! ### Strings, comments and forms -/

/-- In a string no word is remembered. -/
theorem urlWord_feedString {code : State} {endsLine : Char → Bool} (h : ctx.urlWord = .none) :
    (ctx.feedString quote code endsLine c).urlWord = .none := by
  unfold feedString
  split_ifs
  all_goals first | rfl | exact h

/-- A URL in quotes is read as a string is, but for its own part. -/
theorem state_feedCssQuotedUrl (ctx : Context) (quote c : Char) :
    (ctx.feedCssQuotedUrl quote c).state
      = (ctx.feedString quote (.css .code) Css.isLineEnd c).state := by
  unfold feedCssQuotedUrl
  dsimp only
  split <;> rfl

/-- A URL in quotes is read like a string, as far as words are concerned. -/
theorem urlWord_feedCssQuotedUrl (ctx : Context) (quote c : Char) :
    (ctx.feedCssQuotedUrl quote c).urlWord
      = (ctx.feedString quote (.css .code) Css.isLineEnd c).urlWord := by
  unfold feedCssQuotedUrl
  dsimp only
  split <;> rfl

/-- Is the character read as one of code? After a `/` it is if it does not start a comment. -/
def ReadsCssCode (mode : Css.Mode) (c : Char) : Prop :=
  mode = .code ∨ (mode = .slash ∧ c ≠ '*' ∧ c ≠ '/')

theorem not_readsCssCode_slash (h : ¬ ReadsCssCode .slash c) : c = '*' ∨ c = '/' := by
  by_contra hnot
  exact h (.inr ⟨rfl, not_or.mp hnot⟩)

/-- Outside of code no word is remembered. -/
theorem urlWord_feedCss (h : ¬ ReadsCssCode mode c) (hword : ctx.urlWord = .none) :
    (ctx.feedCss mode c).urlWord = .none := by
  cases mode with
  | code => exact absurd (.inl rfl) h
  | slash => rcases not_readsCssCode_slash h with rfl | rfl <;> exact hword
  | doubleQuoted | singleQuoted => exact urlWord_feedString hword
  | doubleQuotedUrl | singleQuotedUrl =>
    rw [feedCss, urlWord_feedCssQuotedUrl]
    exact urlWord_feedString hword
  | urlOpen | url | blockComment | lineComment =>
    simp only [feedCss, feedCssUrlOpen, feedCssUrl, feedBlockComment]
    split_ifs <;> exact hword

/-- A string does not end in a letter. -/
theorem isWordChar_of_feedString {code : State}
    (h : (ctx.feedString quote code Css.isLineEnd c).state ≠ ctx.state)
    (hquote : Css.isWordChar quote = false) : Css.isWordChar c = false := by
  rcases eq_of_state_feedString h with rfl | hline
  · exact hquote
  · exact Css.isWordChar_of_isLineEnd hline

/-- No letter leads back to code. -/
theorem isWordChar_of_feedCss (h : ¬ ReadsCssCode mode c) (hs : ctx.state = .css mode)
    (hnext : (ctx.feedCss mode c).state = .css .code ∨ (ctx.feedCss mode c).state = .css .slash) :
    Css.isWordChar c = false := by
  have hleft (hcode : mode ≠ .code) (hslash : mode ≠ .slash) :
      (ctx.feedCss mode c).state ≠ ctx.state := by
    rw [hs]
    rcases hnext with hnext | hnext <;> rw [hnext] <;> simpa [eq_comm]
  cases mode with
  | code => exact absurd (.inl rfl) h
  | slash => rcases not_readsCssCode_slash h with rfl | rfl <;> decide
  | doubleQuoted | singleQuoted =>
    exact isWordChar_of_feedString (hleft (by decide) (by decide)) (by decide)
  | doubleQuotedUrl | singleQuotedUrl =>
    have hstate := hleft (by decide) (by decide)
    -- the part of the URL does not matter for where the quotes end
    rw [feedCss, state_feedCssQuotedUrl] at hstate
    exact isWordChar_of_feedString hstate (by decide)
  | urlOpen =>
    simp only [feedCss, feedCssUrlOpen] at hnext
    split_ifs at hnext with hdouble hsingle hclose hspace
    · simp at hnext
    · simp at hnext
    · rw [hclose]; decide
    · exact Css.isWordChar_of_isHtmlSpace hspace
    · simp at hnext
  | url =>
    simp only [feedCss, feedCssUrl] at hnext
    split_ifs at hnext with hend
    · rcases hend with rfl | hspace
      · decide
      · exact Css.isWordChar_of_isHtmlSpace hspace
    · simp [hs] at hnext
  | blockComment =>
    rw [eq_of_state_feedBlockComment (hleft (by decide) (by decide))]
    decide
  | lineComment =>
    refine Css.isWordChar_of_isLineEnd (Classical.byContradiction fun hline => ?_)
    exact hleft (by decide) (by decide) (by rw [feedCss, if_neg hline])

end Context

namespace Css

/-- How CSS remembers words. -/
def lookBehind : LookBehind UrlWord where
  code := .css .code
  slash := .css .slash
  isWordChar := isWordChar
  word := Context.urlWord
  empty := .none
  push := UrlWord.next
  feedCode := Context.feedCssCode

/-- Each character is read as the look-behind says. -/
theorem lookBehind_reads {ctx : Context} (hentry : ctx.state.entry = .css .code) (c : Char) :
    lookBehind.Reads ctx c := by
  cases hs : ctx.state with
  | css mode =>
    have hfeed : ctx.feed c = ctx.feedCss mode c := by simp only [Context.feed, hs]
    -- either the character is one of code, or it belongs to a literal, a comment or a URL
    by_cases hcode : Context.ReadsCssCode mode c
    · rcases hcode with rfl | ⟨rfl, hblock, hline⟩
      · exact .asCode (.inl hs) ctx hs rfl hfeed
      · refine .asCode (.inr hs) { ctx with state := .css .code } rfl rfl (hfeed.trans ?_)
        rw [Context.feedCss, Context.feedCssSlash, if_neg hblock, if_neg hline]
        rfl
    · refine .enclosed (fun h => hcode (.inl ?_)) (fun h => ?_) fun h => ?_
      · rw [hs] at h
        exact State.css.inj h
      · rw [hfeed]
        exact Context.urlWord_feedCss hcode h
      · rw [hfeed] at h
        exact Context.isWordChar_of_feedCss hcode hs h
  | _ => rw [hs] at hentry; cases hentry

/-- The laws of a look-behind hold for words of CSS. -/
theorem lawful_lookBehind : lookBehind.Lawful where
  entry := rfl
  reads _ c h := lookBehind_reads h c
  word_feedCode := Context.urlWord_feedCssCode
  state_feedCode ctx c hs hc := by
    show (ctx.feedCssCode c).state = _
    rw [Context.feedCssCode_wordChar ctx hc]
    exact hs

end Css

namespace Context

/-! ### The start of a form -/

variable {ctx : Context} {t : Text}

theorem feed_openParen (hs : ctx.state = .css .code) (hword : ctx.urlWord = .url) :
    ctx.feed '(' = { ctx with state := .css .urlOpen, urlPart := .start, urlWord := .none } := by
  simp [feed, hs, feedCss, feedCssCode, hword]

/-- Any other parenthesis does not. -/
theorem state_feed_openParen_ne (hcss : ctx.state.entry = .css .code) (hword : ctx.urlWord ≠ .url) :
    (ctx.feed '(').state ≠ .css .urlOpen := by
  cases hs : ctx.state with
  | css mode =>
    simp only [feed, hs]
    cases mode with
    -- only the word `url` makes a bracket open a URL
    | code | slash => simp [feedCss, feedCssSlash, feedCssCode, hword, hs]
    | doubleQuotedUrl | singleQuotedUrl =>
      rw [feedCss, state_feedCssQuotedUrl, feedString]
      split_ifs <;> simp [hs]
    | urlOpen =>
      have hspace : isHtmlSpace '(' = false := by decide
      simp [feedCss, feedCssUrlOpen, hspace]
    | _ =>
      simp only [feedCss, feedString, feedCssUrl, feedBlockComment]
      split_ifs <;> simp [hs]
  | _ => rw [hs] at hcss; cases hcss

/-- **A `(` opens a `url()` form exactly if it comes in code right after the word `url`**, in any
letter case. The word is the longest run of letters right before the `(`, whatever strings,
comments, divisions and other forms come before it. -/
theorem opens_url_form_iff (hs : ctx.state = .css .code) (hword : ctx.urlWord = .none) :
    let next := ctx.feedAll (t ++ ['('])
    (next.state = .css .urlOpen
        ↔ (ctx.feedAll t).state = .css .code
          ∧ Text.sameName (t.rtakeWhile Css.isWordChar) "url".toList = true)
      ∧ (next.state = .css .urlOpen → next.urlPart = .start) := by
  intro next
  have hremembers := Css.lookBehind.remembers_feedAll Css.lawful_lookBehind hs hword t
  have hentry : (ctx.feedAll t).state.entry = .css .code := by
    rw [(samePlace_feedAll ctx t).entry, hs]; rfl
  have hnext : next = (ctx.feedAll t).feed '(' := feedAll_append_singleton ctx t '('
  have hurl : (ctx.feedAll t).urlWord = .url
      ↔ (ctx.feedAll t).state = .css .code
        ∧ Text.sameName (t.rtakeWhile Css.isWordChar) "url".toList = true := by
    by_cases hcode : (ctx.feedAll t).state = .css .code
    · have hrun : (ctx.feedAll t).urlWord
          = (t.rtakeWhile Css.isWordChar).foldl Css.UrlWord.next .none :=
        hremembers.inCode (.inl hcode)
      rw [hrun, Css.UrlWord.foldl_next_eq_url_iff fun c hc => List.mem_rtakeWhile_imp hc]
      exact (and_iff_right hcode).symm
    -- outside of code there is no word, whatever the text ends with
    · have hnone : (ctx.feedAll t).urlWord = .none := hremembers.outside hcode
      simp [hnone, hcode]
  rw [← hurl, hnext]
  by_cases hopens : (ctx.feedAll t).urlWord = .url
  · rw [feed_openParen (hurl.mp hopens).1 hopens]
    exact ⟨iff_of_true rfl hopens, fun _ => rfl⟩
  · have hnot := state_feed_openParen_ne hentry hopens
    exact ⟨iff_of_false hnot hopens, fun h => absurd h hnot⟩

/-- After a string, a division, a comment and a form, all with `url` in them. -/
theorem url_form_after_others :
    let ctx := elementContent (some .style)
    let t := "a:'url' url/2 xurl(url(b)/*url*/ URL".toList
    ctx.state = .css .code ∧ ctx.urlWord = .none
      ∧ (ctx.feedAll t).state = .css .code
      ∧ (ctx.feedAll (t ++ ['('])).state = .css .urlOpen := by
  intro ctx t
  have hcode : (ctx.feedAll t).state = .css .code := by decide +kernel
  obtain ⟨hopens, -⟩ := opens_url_form_iff (t := t) (show ctx.state = .css .code from rfl) rfl
  exact ⟨rfl, rfl, hcode, hopens.mpr ⟨hcode, by decide +kernel⟩⟩

end Context

end SafeMarkup
