import SafeMarkup.Proofs.ReachableContext
import SafeMarkup.Proofs.UrlEscape

/-!
# The text of a URL

A context remembers of a URL only how much of it has been read. `UrlText` says what has been read:
the characters since the start of the value, or since the `url(` or the quote after it. The part
that the context remembers is that of this text (`UrlText.urlPart_eq`), and in every reachable
context in a URL there is such a text (`Reachable.exists_urlText`).
-/

namespace SafeMarkup

namespace Url

variable {t : Text} {c : Char}

/-- How much of a URL `t` is. -/
def partOf (t : Text) : Part := t.foldl Part.next .start

theorem partOf_append (a b : Text) : partOf (a ++ b) = b.foldl Part.next (partOf a) := by
  simp [partOf]

theorem partOf_append_singleton (t : Text) (c : Char) :
    partOf (t ++ [c]) = (partOf t).next c := by
  simp [partOf]

/-- Whitespace before a URL does not count. -/
theorem next_of_isHtmlSpace (hc : isHtmlSpace c = true) : Part.start.next c = .start := by
  have hquery : (c == '?' || c == '#') = false := by
    simp only [isHtmlSpace, Bool.or_eq_true, beq_iff_eq] at hc
    rcases hc with (((rfl | rfl) | rfl) | rfl) | rfl <;> decide
  simp [Part.next, hquery, hc]

/-- A part is not left for an earlier one: only whitespace comes before the start. -/
theorem next_eq_start {part : Part} (h : part.next c = .start) :
    part = .start ∧ isHtmlSpace c = true := by
  cases part with
  | start =>
    simp only [Part.next] at h
    split at h
    · cases h
    split at h
    · next hc => exact ⟨rfl, hc⟩
    · split at h <;> cases h
  | scheme => simp only [Part.next] at h; split at h <;> [cases h; (split at h <;> cases h)]
  | preQuery => simp only [Part.next] at h; split at h <;> cases h
  | queryOrFragment => cases h

/-- A scheme is reached by a character of a scheme, at the start or inside one. -/
theorem next_eq_scheme {part : Part} (h : part.next c = .scheme) :
    (part = .start ∨ part = .scheme) ∧ isSchemeChar c = true := by
  cases part with
  | start =>
    simp only [Part.next] at h
    split at h
    · cases h
    split at h
    · cases h
    split at h
    · next hc => exact ⟨.inl rfl, hc⟩
    · cases h
  | scheme =>
    simp only [Part.next] at h
    split at h
    · cases h
    split at h
    · next hc => exact ⟨.inr rfl, hc⟩
    · cases h
  -- no later part leads back to the scheme
  | preQuery => simp only [Part.next] at h; split at h <;> cases h
  | queryOrFragment => cases h

/-- Only whitespace leaves a URL at its start. -/
theorem foldl_next_eq_start {part : Part} (h : t.foldl Part.next part = .start) :
    part = .start ∧ ∀ c ∈ t, isHtmlSpace c = true := by
  induction t generalizing part with
  | nil => exact ⟨h, by simp⟩
  | cons c t ih =>
    obtain ⟨hnext, ht⟩ := ih h
    obtain ⟨hpart, hc⟩ := next_eq_start hnext
    exact ⟨hpart, List.forall_mem_cons.mpr ⟨hc, ht⟩⟩

/-- A URL that is in its scheme has whitespace and then the characters of a scheme. -/
theorem foldl_next_eq_scheme {part : Part} (h : t.foldl Part.next part = .scheme) :
    (part = .scheme ∧ ∀ c ∈ t, isSchemeChar c = true)
      ∨ part = .start ∧ ∃ space run, t = space ++ run ∧ (∀ c ∈ space, isHtmlSpace c = true)
        ∧ run ≠ [] ∧ ∀ c ∈ run, isSchemeChar c = true := by
  induction t generalizing part with
  | nil => exact .inl ⟨h, by simp⟩
  | cons c t ih =>
    rcases ih h with ⟨hnext, ht⟩ | ⟨hnext, space, run, rfl, hspace, hrun⟩
    · obtain ⟨hpart, hc⟩ := next_eq_scheme hnext
      have hall : ∀ d ∈ c :: t, isSchemeChar d = true := List.forall_mem_cons.mpr ⟨hc, ht⟩
      rcases hpart with hpart | hpart
      · exact .inr ⟨hpart, [], c :: t, rfl, by simp, by simp, hall⟩
      · exact .inl ⟨hpart, hall⟩
    · obtain ⟨hpart, hc⟩ := next_eq_start hnext
      exact .inr ⟨hpart, c :: space, run, rfl, List.forall_mem_cons.mpr ⟨hc, hspace⟩, hrun⟩

/-- At the start of a URL there is nothing but whitespace. -/
theorem isHtmlSpace_of_partOf (h : partOf t = .start) : ∀ c ∈ t, isHtmlSpace c = true :=
  (foldl_next_eq_start h).2

/-- In a scheme there is a start of its name after the whitespace. -/
theorem exists_of_partOf_scheme (h : partOf t = .scheme) :
    ∃ space run, t = space ++ run ∧ (∀ c ∈ space, isHtmlSpace c = true) ∧ run ≠ []
      ∧ ∀ c ∈ run, isSchemeChar c = true := by
  rcases foldl_next_eq_scheme h with ⟨hpart, -⟩ | ⟨-, hexists⟩
  · cases hpart
  · exact hexists

/-- Up to the name of its scheme a URL has whitespace and characters of that name only. -/
theorem isSpace_or_isSchemeChar (h : partOf t = .start ∨ partOf t = .scheme) :
    ∀ c ∈ t, isHtmlSpace c = true ∨ isSchemeChar c = true := by
  rcases h with h | h
  · exact fun c hc => .inl (isHtmlSpace_of_partOf h c hc)
  · obtain ⟨space, run, rfl, hspace, -, hrun⟩ := exists_of_partOf_scheme h
    intro c hc
    rcases List.mem_append.mp hc with hc | hc
    · exact .inl (hspace c hc)
    · exact .inr (hrun c hc)

end Url

/-- In a URL, or where one starts? -/
def State.isInUrl : State → Bool
  | .css .urlOpen => true
  | state => state.isUrl

/-- Is this a place in CSS where a `(` can open a URL? -/
def State.opensUrl : State → Bool
  | .css .code | .css .slash => true
  | _ => false

namespace Context

/-- Of the URL at the cursor `t` has been read. -/
inductive UrlText : Context → Text → Prop where
  | value (ctx : Context) (delim : Delim) (ha : ctx.attr = some .url) :
      UrlText (ctx.attrValue delim) []
  | opening (ctx : Context) (hw : ctx.WellFormed) (hs : ctx.state.opensUrl = true)
      (hopen : (ctx.feed '(').state = .css .urlOpen) : UrlText (ctx.feed '(') []
  | quote (ctx : Context) (t : Text) (h : UrlText ctx t) (hs : ctx.state = .css .urlOpen) (c : Char)
      (hc : c = '"' ∨ c = '\'') : UrlText (ctx.feed c) []
  | read (ctx : Context) (t : Text) (h : UrlText ctx t) (c : Char)
      (hnext : (ctx.feed c).state = ctx.state ∨ (ctx.feed c).state = .css .url) :
      UrlText (ctx.feed c) (t ++ [c])

variable {ctx next : Context} {c : Char} {s t : Text}

/-! ### Single characters -/

/-- A URL in quotes is read as a string. -/
theorem feed_quotedUrl
    (hs : ctx.state = .css .doubleQuotedUrl ∨ ctx.state = .css .singleQuotedUrl) (c : Char) :
    ∃ quote, ctx.feed c = ctx.feedCssQuotedUrl quote c := by
  rcases hs with hs | hs
  · exact ⟨'"', by simp [feed, hs, feedCss]⟩
  · exact ⟨'\'', by simp [feed, hs, feedCss]⟩

/-- Reading a string does not touch the part of the URL. -/
theorem urlPart_feedString {quote : Char} {code : State} {endsLine : Char → Bool} :
    (ctx.feedString quote code endsLine c).urlPart = ctx.urlPart := by
  unfold feedString
  repeat' split
  all_goals rfl

/-- Only a backslash can open an escape. -/
theorem eq_backslash_of_escaping {quote : Char} {code : State} {endsLine : Char → Bool}
    (h : (ctx.feedString quote code endsLine c).flags.escaping = true) : c = '\\' := by
  unfold feedString at h
  split at h
  · cases h
  next hesc =>
    split at h
    · assumption
    · repeat' split at h
      all_goals exact absurd h hesc

/-- The four states in which the characters of a URL are read. -/
theorem isUrl_cases {state : State} (hs : state.isUrl = true) :
    state = .url ∨ state = .css .url
      ∨ state = .css .doubleQuotedUrl ∨ state = .css .singleQuotedUrl := by
  cases state with
  | url => exact .inl rfl
  | css mode => cases mode <;> simp_all [State.isUrl]
  | _ => cases hs

/-- A URL goes on, or code follows it. -/
theorem feed_isUrl (hs : ctx.state.isUrl = true) (c : Char) :
    (ctx.feed c).state = .css .code
      ∨ (ctx.feed c).state = ctx.state ∧ (ctx.feed c).urlPart = ctx.urlPart.next c := by
  rcases isUrl_cases hs with hs | hs | hs
  · exact .inr (by simp [feed, hs])
  · simp only [feed, hs, feedCss, feedCssUrl]
    split
    · exact .inl rfl
    · exact .inr ⟨rfl, rfl⟩
  · obtain ⟨quote, hfeed⟩ := feed_quotedUrl hs c
    rw [hfeed, feedCssQuotedUrl]
    split
    · next hsame => exact .inr ⟨hsame, by rw [urlPart_feedString]⟩
    · next hother => exact .inl ((state_feedString ..).resolve_left hother)

/-- In CSS code only a `(` leads to a URL, and nothing of it has been read then. -/
theorem feedCssCode_isInUrl (hs : ctx.state = .css .code)
    (hnext : (ctx.feedCssCode c).state.isInUrl = true) :
    c = '(' ∧ (ctx.feedCssCode c).state = .css .urlOpen
      ∧ (ctx.feedCssCode c).urlPart = .start := by
  unfold feedCssCode at hnext ⊢
  split at hnext
  · cases hnext
  split at hnext
  · cases hnext
  split at hnext
  · cases hnext
  split at hnext
  · next hc =>
    split at hnext
    · next hword => subst hc; simp [hword]
    · simp [hs, State.isInUrl, State.isUrl] at hnext
  · simp [hs, State.isInUrl, State.isUrl] at hnext

/-- From code a URL is only entered by the `(` after its word. -/
theorem feed_opensUrl (hs : ctx.state.opensUrl = true) (hnext : (ctx.feed c).state.isInUrl = true) :
    c = '(' ∧ (ctx.feed c).state = .css .urlOpen ∧ (ctx.feed c).urlPart = .start := by
  cases hstate : ctx.state with
  | css mode =>
    cases mode with
    | code =>
      simp only [feed, hstate, feedCss] at hnext ⊢
      exact feedCssCode_isInUrl hstate hnext
    -- a slash that opens no comment is code, and the character is read as code
    | slash =>
      simp only [feed, hstate, feedCss, feedCssSlash] at hnext ⊢
      split at hnext
      · cases hnext
      next hstar =>
        split at hnext
        · cases hnext
        next hslash =>
          rw [if_neg hstar, if_neg hslash]
          exact feedCssCode_isInUrl rfl hnext
    | _ => rw [hstate] at hs; cases hs
  | _ => rw [hstate] at hs; cases hs

/-- What can come after `url(`. -/
inductive AfterUrlOpen (ctx : Context) (c : Char) : Context → Prop where
  | quote (hc : c = '"' ∨ c = '\'') (mode : Css.Mode)
      (hmode : mode = .doubleQuotedUrl ∨ mode = .singleQuotedUrl) :
      AfterUrlOpen ctx c { ctx with state := .css mode }
  | close (hc : c = ')') : AfterUrlOpen ctx c { ctx with state := .css .code }
  | space (hc : isHtmlSpace c = true) : AfterUrlOpen ctx c ctx
  | start : AfterUrlOpen ctx c { ctx with state := .css .url, urlPart := ctx.urlPart.next c }

/-- After the `(` a character is a quote, the end, a space or the start of the URL. -/
theorem afterUrlOpen_feed (hs : ctx.state = .css .urlOpen) (c : Char) :
    ctx.AfterUrlOpen c (ctx.feed c) := by
  simp only [feed, hs, feedCss, feedCssUrlOpen]
  split
  · next hc => exact .quote (.inl hc) _ (.inl rfl)
  split
  · next hc => exact .quote (.inr hc) _ (.inr rfl)
  split
  · next hc => exact .close hc
  split
  · next hc => exact .space hc
  · exact .start

/-! ### What has been read -/

/-- The context of a URL is a well formed one. -/
theorem UrlText.wellFormed (h : ctx.UrlText t) : ctx.WellFormed := by
  induction h with
  | value ctx delim ha => exact wellFormed_attrValue ha delim
  | opening ctx hw => exact hw.feed '('
  | quote ctx t _ _ c _ ih => exact ih.feed c
  | read ctx t _ c _ ih => exact ih.feed c

theorem UrlText.isInUrl (h : ctx.UrlText t) : ctx.state.isInUrl = true := by
  induction h with
  | value ctx delim ha => simp [attrValue, ha, State.isInUrl, State.isUrl]
  | opening ctx _ _ hopen => rw [hopen]; rfl
  | quote ctx t _ hs c hc => rcases hc with rfl | rfl <;> simp [feed, hs, feedCss, feedCssUrlOpen,
      State.isInUrl, State.isUrl]
  | read ctx t _ c hnext ih =>
    rcases hnext with hnext | hnext <;> rw [hnext]
    · exact ih
    · rfl

/-- In a URL, but not at its opening, the characters of the URL are read. -/
theorem isUrl_of_isInUrl (h : ctx.state.isInUrl = true) (hs : ctx.state ≠ .css .urlOpen) :
    ctx.state.isUrl = true := by
  cases hstate : ctx.state with
  | css mode => cases mode <;> simp_all [State.isInUrl, State.isUrl]
  | _ => simp_all [State.isInUrl, State.isUrl]

/-- **The context remembers how much has been read.** -/
theorem UrlText.urlPart_eq (h : ctx.UrlText t) :
    ctx.urlPart = Url.partOf t ∧ (ctx.state = .css .urlOpen → ctx.urlPart = .start) := by
  induction h with
  | value => exact ⟨rfl, fun _ => rfl⟩
  | opening ctx _ hs hopen =>
    obtain ⟨-, -, hpart⟩ := feed_opensUrl hs (by rw [hopen]; rfl)
    exact ⟨hpart, fun _ => hpart⟩
  | quote ctx t _ hs c hc ih =>
    have hpart : (ctx.feed c).urlPart = ctx.urlPart := by
      rcases hc with rfl | rfl <;> simp [feed, hs, feedCss, feedCssUrlOpen]
    rw [hpart, ih.2 hs]
    exact ⟨rfl, fun _ => rfl⟩
  | read ctx t h c hnext ih =>
    rw [Url.partOf_append_singleton, ← ih.1]
    by_cases hs : ctx.state = .css .urlOpen
    · -- whitespace before the URL does not count
      have hstart := ih.2 hs
      generalize hfeed : ctx.feed c = next at hnext
      cases hfeed ▸ afterUrlOpen_feed hs c with
      | quote _ mode hmode =>
        rcases hmode with rfl | rfl <;> rcases hnext with hnext | hnext <;> simp [hs] at hnext
      | close => rcases hnext with hnext | hnext <;> simp [hs] at hnext
      | space hc =>
        rw [hstart, Url.next_of_isHtmlSpace hc]
        exact ⟨rfl, fun _ => rfl⟩
      | start => exact ⟨rfl, fun h => by cases h⟩
    · have hurl := isUrl_of_isInUrl h.isInUrl hs
      -- in the URL itself every character counts, unless it ends it
      rcases feed_isUrl hurl c with hcode | ⟨hsame, hpart⟩
      · rw [hcode] at hnext
        rcases hnext with hnext | hnext
        · rw [← hnext] at hurl; cases hurl
        · cases hnext
      · exact ⟨hpart, fun h => absurd (hsame ▸ h) hs⟩

/-- An escape is open only after a backslash in the URL. -/
theorem UrlText.backslash_mem (h : ctx.UrlText t) (he : ctx.flags.escaping = true) : '\\' ∈ t := by
  -- escapes are open in quotes only
  have hallows := h.wellFormed.remembers.escaping he
  cases h with
  | value ctx delim ha => cases he
  | opening ctx _ _ hopen => rw [hopen] at hallows; cases hallows
  | quote ctx t h hs c hc =>
    have hflags : (ctx.feed c).flags = ctx.flags := by
      rcases hc with rfl | rfl <;> simp [feed, hs, feedCss, feedCssUrlOpen]
    rw [hflags] at he
    have hallows' := h.wellFormed.remembers.escaping he
    rw [hs] at hallows'
    cases hallows'
  | read ctx t h c hnext =>
    have hquoted : ctx.state = .css .doubleQuotedUrl ∨ ctx.state = .css .singleQuotedUrl := by
      rcases hnext with hnext | hnext
      · have hurl := h.isInUrl
        rw [hnext] at hallows
        cases hstate : ctx.state with
        | css mode => cases mode <;> simp_all [State.isInUrl, State.isUrl, State.allowsEscapes]
        | _ => simp_all [State.isInUrl, State.isUrl, State.allowsEscapes]
      · rw [hnext] at hallows; cases hallows
    obtain ⟨quote, hfeed⟩ := feed_quotedUrl hquoted c
    rw [hfeed, feedCssQuotedUrl] at he
    have hback : c = '\\' := by
      split at he <;> exact eq_backslash_of_escaping he
    simp [hback]

/-! ### Reading on -/

/-- Characters that may occur in URLs are read. -/
theorem UrlText.read_isNormal (h : ctx.UrlText t) (he : ctx.flags.escaping = false)
    (hc : Url.isNormal c = true) :
    (ctx.feed c).UrlText (t ++ [c]) ∧ (ctx.feed c).flags.escaping = false := by
  by_cases hs : ctx.state = .css .urlOpen
  · have hne {d : Char} (hd : Url.isNormal d = false) : c ≠ d := ne_of_class hc hd
    have hread := UrlText.read ctx t h c
    generalize hfeed : ctx.feed c = next at hread
    cases hfeed ▸ afterUrlOpen_feed hs c with
    | quote hquote =>
      rcases hquote with hquote | hquote <;> exact absurd hquote (hne (by decide))
    | close hclose => exact absurd hclose (hne (by decide))
    | space => exact ⟨hread (.inl rfl), he⟩
    | start => exact ⟨hread (.inr rfl), he⟩
  · have hnext := feed_isNormal (isUrl_of_isInUrl h.isInUrl hs) he hc
    exact ⟨.read ctx t h c (.inl hnext.1), by rw [hnext.2]; exact he⟩

/-- A text of normal characters makes the URL longer. -/
theorem UrlText.append (h : ctx.UrlText t) (he : ctx.flags.escaping = false)
    (hs : ∀ c ∈ s, Url.isNormal c = true) :
    (ctx.feedAll s).UrlText (t ++ s) ∧ (ctx.feedAll s).flags.escaping = false := by
  induction s generalizing ctx t with
  | nil => exact ⟨by simpa using h, he⟩
  | cons c s ih =>
    have hs' := List.forall_mem_cons.mp hs
    obtain ⟨hread, he'⟩ := h.read_isNormal he hs'.1
    rw [List.append_cons, feedAll_cons]
    exact ih hread he' hs'.2

/-! ### Every URL has a text -/

/-- Outside of URLs a character other than such a `(` leads to none. -/
theorem not_isInUrl_feed (hs : ctx.state.isInUrl = false) (hopens : ctx.state.opensUrl = false) :
    (ctx.feed c).state.isInUrl = false := by
  have string (hfeed : ∃ quote, ctx.feed c = ctx.feedString quote (.css .code) Css.isLineEnd c) :
      (ctx.feed c).state.isInUrl = false := by
    obtain ⟨quote, hfeed⟩ := hfeed
    rw [hfeed]
    rcases state_feedString ctx quote (.css .code) Css.isLineEnd c with h | h
    · rw [h, hs]
    · rw [h]; rfl
  -- outside of CSS the language stays the same, and there is no URL in it
  have hentry := (samePlace_feed ctx c).entry
  cases hstate : ctx.state with
  | css mode =>
    cases mode with
    | doubleQuoted => exact string ⟨'"', by simp [feed, hstate, feedCss]⟩
    | singleQuoted => exact string ⟨'\'', by simp [feed, hstate, feedCss]⟩
    | blockComment =>
      simp only [feed, hstate, feedCss, feedBlockComment]
      split <;> rfl
    | lineComment =>
      simp only [feed, hstate, feedCss]
      split
      · rfl
      · rw [hstate]; rfl
    | code | slash => rw [hstate] at hopens; cases hopens
    | urlOpen | url | doubleQuotedUrl | singleQuotedUrl => rw [hstate] at hs; cases hs
  | url => rw [hstate] at hs; cases hs
  | text | tagName | tag | attrName | afterName | beforeValue | plainValue | js | rcdata | comment
  | bogusComment =>
    rw [hstate] at hentry
    cases hnext : (ctx.feed c).state <;> simp_all [State.entry, State.isInUrl, State.isUrl]

/-- In a URL there is a text of it, also after another character. -/
theorem exists_urlText_feed (hw : ctx.WellFormed)
    (hctx : ctx.state.isInUrl = true → ∃ t, ctx.UrlText t)
    (hnext : (ctx.feed c).state.isInUrl = true) : ∃ t, (ctx.feed c).UrlText t := by
  by_cases hs : ctx.state.isInUrl = true
  · obtain ⟨t, ht⟩ := hctx hs
    by_cases hopen : ctx.state = .css .urlOpen
    · have hquote := UrlText.quote ctx t ht hopen c
      have hread := UrlText.read ctx t ht c
      generalize hfeed : ctx.feed c = next at hquote hread hnext
      cases hfeed ▸ afterUrlOpen_feed hopen c with
      | quote hc => exact ⟨[], hquote hc⟩
      | close => cases hnext
      | space => exact ⟨t ++ [c], hread (.inl rfl)⟩
      | start => exact ⟨t ++ [c], hread (.inr rfl)⟩
    · rcases feed_isUrl (isUrl_of_isInUrl hs hopen) c with hcode | ⟨hsame, -⟩
      · rw [hcode] at hnext
        cases hnext
      · exact ⟨t ++ [c], .read ctx t ht c (.inl hsame)⟩
  · -- outside of a URL, one must have been opened by this character
    have hopens : ctx.state.opensUrl = true := by
      by_contra hnot
      rw [not_isInUrl_feed (by simpa using hs) (by simpa using hnot)] at hnext
      cases hnext
    obtain ⟨rfl, hstate, -⟩ := feed_opensUrl hopens hnext
    exact ⟨[], .opening ctx hw hopens hstate⟩

/-- At the start of an attribute value the text of a URL is empty. -/
theorem exists_urlText_attrValue {delim : Delim}
    (hs : (ctx.attrValue delim).state.isInUrl = true) : ∃ t, (ctx.attrValue delim).UrlText t := by
  have ha : ctx.attr = some .url := by
    cases ha : ctx.attr with
    | none => simp [attrValue, ha, State.isInUrl, State.isUrl] at hs
    | some kind => cases kind <;> simp_all [attrValue, State.isInUrl, State.isUrl]
  exact ⟨[], .value ctx delim ha⟩

/-- No element holds a URL as its content. -/
theorem not_isInUrl_elementContent (element : Option Html.Element) :
    (elementContent element).state.isInUrl = false := by
  cases element with
  | none => rfl
  | some element => cases element <;> rfl

theorem isContent_of_isInUrl {state : State} (h : state.isInUrl = true) :
    state.isContent = true := by
  cases state <;> first | rfl | cases h

theorem preserved_urlText :
    Preserved fun ctx => ctx.state.isInUrl = true → ∃ t, ctx.UrlText t :=
  .of_feed isContent_of_isInUrl (fun element h => by simp [not_isInUrl_elementContent] at h)
    exists_urlText_attrValue exists_urlText_feed

/-- **In every URL that can be reached there is a text that has been read.** -/
theorem Reachable.exists_urlText (h : ctx.Reachable) (hs : ctx.state.isInUrl = true) :
    ∃ t, ctx.UrlText t :=
  preserved_urlText.of_reachable h hs

end Context

end SafeMarkup
