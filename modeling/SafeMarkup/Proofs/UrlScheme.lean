import SafeMarkup.Proofs.CodeValue
import SafeMarkup.Proofs.UrlText

/-!
# Schemes of URLs made of values

The first value in a URL is replaced if its scheme is not allowed. All later ones, and those after
the start of a name in trusted text, cannot complete a scheme, for their `:` is encoded until there
can be no scheme any more. So the scheme of a URL that consists of values and whitespace is that of
one value, and it is allowed (`Writer.spelled_scheme_is_allowed`).
-/

namespace SafeMarkup

namespace Url

variable {schemes : List Scheme} {part : Part} {a b run rest t : Text} {c : Char}

/-- What is written for one text after the other in a URL of which `part` has been read. -/
def outputs (schemes : List Scheme) : Part → List Text → Text
  | _, [] => []
  | part, t :: ts =>
    let written := (Escaper.url part).escape { schemes } t
    written ++ outputs schemes (written.foldl Part.next part) ts

/-- Does the text start with characters of a scheme's name and a `:` after them? -/
def StartsScheme (t : Text) : Prop :=
  ∃ run rest, t = run ++ ':' :: rest ∧ ∀ c ∈ run, isSchemeChar c = true

/-! ### Characters -/

theorem next_of_isSchemeChar (hc : isSchemeChar c = true)
    (hpart : part = .start ∨ part = .scheme) : part.next c = .scheme := by
  have hne {d : Char} (hd : isSchemeChar d = false) : c ≠ d := ne_of_class hc hd
  have hspace : isHtmlSpace c = false := isHtmlSpace_of_class hc (by decide)
  have hquery : (c == '?' || c == '#') = false := by
    simp [hne (show isSchemeChar '?' = false by decide),
      hne (show isSchemeChar '#' = false by decide)]
  rcases hpart with rfl | rfl <;> simp [Part.next, hquery, hspace, hc]

theorem foldl_next_of_isSchemeChar (ht : ∀ c ∈ t, isSchemeChar c = true) :
    t.foldl Part.next .scheme = .scheme := by
  induction t with
  | nil => rfl
  | cons c t ih =>
    have ht' := List.forall_mem_cons.mp ht
    rw [List.foldl_cons, next_of_isSchemeChar ht'.1 (.inr rfl)]
    exact ih ht'.2

/-- After the start of a name the URL may still be in its scheme. -/
theorem foldl_next_start_of_isSchemeChar (hne : t ≠ []) (ht : ∀ c ∈ t, isSchemeChar c = true) :
    t.foldl Part.next .start = .scheme := by
  rcases t with _ | ⟨c, t⟩
  · exact absurd rfl hne
  · have ht' := List.forall_mem_cons.mp ht
    rw [List.foldl_cons, next_of_isSchemeChar ht'.1 (.inl rfl)]
    exact foldl_next_of_isSchemeChar ht'.2

theorem colon_notMem_of_isSchemeChar (ht : ∀ c ∈ t, isSchemeChar c = true) : ':' ∉ t :=
  fun hmem => absurd (ht ':' hmem) (by decide)

/-! ### Texts that start a scheme -/

theorem not_startsScheme_nil : ¬ StartsScheme [] := by
  rintro ⟨run, rest, heq, -⟩
  simp at heq

theorem StartsScheme.head (h : StartsScheme (c :: t)) : c = ':' ∨ isSchemeChar c = true := by
  obtain ⟨run, rest, heq, hrun⟩ := h
  rcases run with _ | ⟨d, run⟩
  · exact .inl (List.cons.inj heq).1
  · exact .inr ((List.cons.inj heq).1 ▸ hrun d List.mem_cons_self)

/-- A scheme goes on over a text that has no `:`. -/
theorem StartsScheme.of_append (h : StartsScheme (a ++ b)) (ha : ':' ∉ a) :
    (∀ c ∈ a, isSchemeChar c = true) ∧ StartsScheme b := by
  obtain ⟨run, rest, heq, hrun⟩ := h
  rcases List.append_eq_append_iff.mp heq with ⟨more, rfl, rfl⟩ | ⟨more, rfl, hmore⟩
  · exact ⟨fun c hc => hrun c (List.mem_append_left _ hc), more, rest, rfl,
      fun c hc => hrun c (List.mem_append_right _ hc)⟩
  · rcases more with _ | ⟨d, more⟩
    · rw [List.append_nil] at ha ⊢
      exact ⟨hrun, [], rest, hmore.symm, by simp⟩
    · obtain ⟨rfl, -⟩ := List.cons.inj hmore
      exact absurd (by simp) ha

/-! ### Escaped texts -/

/-- In a scheme no value writes a `:` before it leaves the scheme. -/
theorem startsScheme_normalizeInScheme (h : StartsScheme (normalizeInScheme t ++ rest)) :
    (∀ c ∈ normalizeInScheme t, isSchemeChar c = true) ∧ StartsScheme rest := by
  obtain ⟨start, more, heq, hstart, -, hfirst⟩ := exists_normalizeInScheme t
  have hcolon : ':' ∉ start := fun hmem => absurd (hstart ':' hmem).1 (by decide)
  rw [heq, List.append_assoc] at h
  obtain ⟨hchars, hafter⟩ := h.of_append hcolon
  rw [heq]
  rcases hfirst with rfl | ⟨y, z, rfl, hy⟩
  · rw [List.append_nil]
    exact ⟨hchars, hafter⟩
  · -- what ends the part with the scheme is kept, and is neither a `:` nor part of a name
    simp only [endsSchemePart, Bool.or_eq_true, beq_iff_eq] at hy
    rcases hy with (rfl | rfl) | rfl <;> exact absurd hafter.head (by decide)

/-- Where normalizing leaves a scheme, the text has that scheme, or the scheme goes on after it. -/
theorem scheme_of_normalize (h : normalize t ++ rest = run ++ ':' :: b)
    (hrun : ∀ c ∈ run, isSchemeChar c = true) :
    (∃ t', t = run ++ ':' :: t')
      ∨ (∀ c ∈ normalize t, isSchemeChar c = true) ∧ StartsScheme rest := by
  induction t generalizing run with
  | nil => exact .inr ⟨by simp [normalize, encodeUnless], run, b, h, hrun⟩
  | cons c t ih =>
    have hcons : normalize (c :: t) = (if isNormal c then [c] else percentChar c) ++ normalize t :=
      rfl
    rw [hcons] at h ⊢
    -- a character that is encoded starts with `%`, which is in no scheme
    by_cases hc : isNormal c = true
    · rw [if_pos hc, List.singleton_append, List.cons_append] at h
      rw [if_pos hc, List.singleton_append]
      rcases run with _ | ⟨d, run⟩
      · obtain ⟨rfl, -⟩ := List.cons.inj h
        exact .inl ⟨t, rfl⟩
      obtain ⟨rfl, htail⟩ := List.cons.inj h
      have hrun' := List.forall_mem_cons.mp hrun
      rcases ih htail hrun'.2 with ⟨t', rfl⟩ | ⟨hall, hrest⟩
      · exact .inl ⟨t', rfl⟩
      · exact .inr ⟨List.forall_mem_cons.mpr ⟨hrun'.1, hall⟩, hrest⟩
    · obtain ⟨digits, hdigits⟩ := exists_percentChar c
      rw [if_neg hc, hdigits, List.cons_append, List.cons_append] at h
      exact absurd (StartsScheme.head ⟨run, b, h, hrun⟩) (by decide)

/-- The scheme is what comes before the first `:`. -/
theorem scheme?_eq (hrun : ∀ c ∈ run, isSchemeChar c = true) :
    scheme? (run ++ ':' :: rest) = some run := by
  have hends : ∀ c ∈ run, (!endsScheme c) = true := by
    intro c hc
    have hne {d : Char} (hd : isSchemeChar d = false) : c ≠ d := ne_of_class (hrun c hc) hd
    simp [endsScheme, hne (show isSchemeChar ':' = false by decide),
      hne (show isSchemeChar '/' = false by decide), hne (show isSchemeChar '?' = false by decide),
      hne (show isSchemeChar '#' = false by decide)]
  rw [scheme?, List.dropWhile_append_of_pos hends, List.takeWhile_append_of_pos hends]
  simp [endsScheme]

theorem scheme_of_isAllowed (h : isAllowed schemes (run ++ ':' :: rest) = true)
    (hrun : ∀ c ∈ run, isSchemeChar c = true) :
    ∃ scheme, Scheme.ofName? run = some scheme ∧ scheme ∈ schemes := by
  rw [isAllowed, scheme?_eq hrun] at h
  dsimp only at h
  split at h
  · cases h
  · next scheme hname => exact ⟨scheme, hname, by simpa using h⟩

/-! ### Values one after the other -/

theorem dropWhile_of_head {p : Char → Bool} (h : ∀ c ∈ t, p c = false) : t.dropWhile p = t := by
  rcases t with _ | ⟨c, t⟩
  · rfl
  · rw [List.dropWhile_cons, h c List.mem_cons_self]
    rfl

theorem isNormal_of_mem_outputs {ts : List Text} (hc : c ∈ outputs schemes part ts) :
    isNormal c = true := by
  induction ts generalizing part with
  | nil => cases hc
  | cons t ts ih =>
    rcases List.mem_append.mp hc with hc | hc
    · exact isNormal_of_mem_escape hc
    · exact ih hc

/-- **After the start of a name values complete no scheme.** -/
theorem not_startsScheme_outputs (ts : List Text) :
    ¬ StartsScheme (outputs schemes .scheme ts) := by
  induction ts with
  | nil => exact not_startsScheme_nil
  | cons t ts ih =>
    intro h
    have hwritten : StartsScheme (normalizeInScheme t
        ++ outputs schemes ((normalizeInScheme t).foldl Part.next .scheme) ts) := h
    obtain ⟨hall, hrest⟩ := startsScheme_normalizeInScheme hwritten
    rw [foldl_next_of_isSchemeChar hall] at hrest
    exact ih hrest

/-- **At the start of a URL values spell allowed schemes only.** -/
theorem scheme_of_outputs {ts : List Text} (h : outputs schemes .start ts = run ++ ':' :: rest)
    (hrun : ∀ c ∈ run, isSchemeChar c = true) :
    ∃ scheme, Scheme.ofName? run = some scheme ∧ scheme ∈ schemes := by
  induction ts with
  | nil => simp [outputs] at h
  | cons t ts ih =>
    have hwritten : filter schemes t
        ++ outputs schemes ((filter schemes t).foldl Part.next .start) ts = run ++ ':' :: rest := h
    rcases t with _ | ⟨c, t⟩
    · exact ih hwritten
    by_cases hallowed : isAllowed schemes (c :: t) = true
    · rw [filter, if_pos hallowed] at hwritten
      rcases scheme_of_normalize hwritten hrun with ⟨t', heq⟩ | ⟨hall, hrest⟩
      · rw [heq] at hallowed
        exact scheme_of_isAllowed hallowed hrun
      · -- the name would go on with the next value, which cannot complete it
        have hwritten : normalize (c :: t) ≠ [] := encodeUnless_ne_nil (List.cons_ne_nil c t)
        rw [foldl_next_start_of_isSchemeChar hwritten hall] at hrest
        exact absurd hrest (not_startsScheme_outputs ts)
    · rw [filter, if_neg hallowed] at hwritten
      exact absurd (StartsScheme.head (c := '#') ⟨run, rest, hwritten, hrun⟩) (by decide)

/-- **Whatever has been read of a URL before**, whitespace or the start of a name: with values after
it the URL has an allowed scheme or none. -/
theorem scheme_of_seen {seen : Text} (hpart : partOf seen = .start ∨ partOf seen = .scheme)
    {ts : List Text}
    (h : (seen ++ outputs schemes (partOf seen) ts).dropWhile isHtmlSpace = run ++ ':' :: rest)
    (hrun : ∀ c ∈ run, isSchemeChar c = true) :
    partOf seen = .start ∧ ∃ scheme, Scheme.ofName? run = some scheme ∧ scheme ∈ schemes := by
  rcases hpart with hpart | hpart
  · refine ⟨hpart, ?_⟩
    rw [hpart, List.dropWhile_append_of_pos (isHtmlSpace_of_partOf hpart)] at h
    have hspace : (outputs schemes .start ts).dropWhile isHtmlSpace = outputs schemes .start ts :=
      dropWhile_of_head fun c hc => isHtmlSpace_of_class (isNormal_of_mem_outputs hc) (by decide)
    exact scheme_of_outputs (hspace ▸ h) hrun
  · -- the name that has been started would have to go on over the values
    obtain ⟨space, name, rfl, hspace, -, hname⟩ := exists_of_partOf_scheme hpart
    have hbare : ∀ c ∈ name ++ outputs schemes .scheme ts, isHtmlSpace c = false := by
      intro c hc
      rcases List.mem_append.mp hc with hc | hc
      · exact isHtmlSpace_of_class (hname c hc) (by decide)
      · exact isHtmlSpace_of_class (isNormal_of_mem_outputs hc) (by decide)
    rw [hpart, List.append_assoc, List.dropWhile_append_of_pos hspace, dropWhile_of_head hbare] at h
    have hstarts : StartsScheme (name ++ outputs schemes .scheme ts) := ⟨run, rest, h, hrun⟩
    obtain ⟨-, hafter⟩ := hstarts.of_append (colon_notMem_of_isSchemeChar hname)
    exact absurd hafter (not_startsScheme_outputs ts)

end Url

namespace Context

variable {ctx : Context} {s t : Text}

/-! ### Texts without openings -/

/-- Without a `(` no URL is entered. -/
theorem isInUrl_of_feedAll (hs : '(' ∉ s) (h : (ctx.feedAll s).state.isInUrl = true) :
    ctx.state.isInUrl = true := by
  induction s generalizing ctx with
  | nil => exact h
  | cons c s ih =>
    rw [List.mem_cons, not_or] at hs
    have hnext := ih hs.2 h
    by_contra hnot
    by_cases hopens : ctx.state.opensUrl = true
    · exact hs.1 (feed_opensUrl hopens hnext).1.symm
    · rw [not_isInUrl_feed (by simpa using hnot) (by simpa using hopens)] at hnext
      cases hnext

/-- A text without openings that ends in a URL has been read as a part of it. -/
theorem UrlText.readAll (h : ctx.UrlText t) (hs : ∀ c ∈ s, c ≠ '(' ∧ c ≠ '"' ∧ c ≠ '\'')
    (hend : (ctx.feedAll s).state.isInUrl = true) : (ctx.feedAll s).UrlText (t ++ s) := by
  induction s generalizing ctx t with
  | nil => simpa using h
  | cons c s ih =>
    obtain ⟨⟨-, hdouble, hsingle⟩, hs'⟩ := List.forall_mem_cons.mp hs
    have hnext : (ctx.feed c).state.isInUrl = true :=
      isInUrl_of_feedAll (fun hmem => (hs' _ hmem).1 rfl) hend
    -- without quotes and brackets the character is one of the URL
    have hread : (ctx.feed c).state = ctx.state ∨ (ctx.feed c).state = .css .url := by
      by_cases hopen : ctx.state = .css .urlOpen
      · have hafter := afterUrlOpen_feed hopen c
        generalize ctx.feed c = next at hnext hafter ⊢
        cases hafter with
        | quote hc => rcases hc with hc | hc <;> contradiction
        | close => cases hnext
        | space => exact .inl rfl
        | start => exact .inr rfl
      · rcases feed_isUrl (isUrl_of_isInUrl h.isInUrl hopen) c with hcode | ⟨hsame, -⟩
        · rw [hcode] at hnext
          cases hnext
        · exact .inl hsame
    rw [List.append_cons]
    exact ih (.read ctx t h c hread) hs' hend

/-- Up to the name of its scheme a URL has no backslash, so no escape is open. -/
theorem UrlText.escaping_eq (h : ctx.UrlText t)
    (hpart : ctx.urlPart = .start ∨ ctx.urlPart = .scheme) : ctx.flags.escaping = false := by
  rw [h.urlPart_eq.1] at hpart
  refine Bool.eq_false_iff.mpr fun he => ?_
  rcases Url.isSpace_or_isSchemeChar hpart _ (h.backslash_mem he) with hc | hc <;>
    exact absurd hc (by decide)

/-- Where the scheme of a URL is still open nothing is held back outside of values of attributes,
for the `<` that is held back there ends the scheme. -/
theorem Undecided.inAttrValue_of_isInUrl (h : ctx.Undecided t) (hr : ctx.Reachable)
    (hs : (ctx.peek t).state.isInUrl = true)
    (hpart : (ctx.peek t).urlPart = .start ∨ (ctx.peek t).urlPart = .scheme) :
    ctx.inAttrValue = true := by
  have hpeeks := h.peek hr.wellFormed
  generalize hnext : ctx.peek t = next at hpeeks hs hpart
  cases hpeeks with
  | markup _ _ state hstate => rcases hstate with rfl | rfl | rfl <;> cases hs
  | name => cases hs
  | comment _ hstate => rw [hstate] at hs; cases hs
  | value hd => exact hd
  -- what is held back is an end tag, and its `<` is in no scheme
  | content hd hstate =>
    cases h with
    | contentEnd element rest _ _ he hend hrest =>
      rw [← hnext, peek_contentEnd hd hstate he hend hrest] at hs hpart
      have hplain : ∀ c ∈ '<' :: rest, c ≠ '(' ∧ c ≠ '"' ∧ c ≠ '\'' := by
        rcases hrest with rfl | ⟨more, rfl, hcould, hlen⟩
        · simp
        have hnot {c : Char} (hc : c.toLower.isAlpha = false) : ∀ d ∈ more, d ≠ c := by
          rintro d hd rfl
          exact Html.Element.notMem_of_couldEnd hc hcould hlen hd
        intro c hc
        rcases List.mem_cons.mp hc with rfl | hc
        · decide
        rcases List.mem_cons.mp hc with rfl | hc
        · decide
        exact ⟨hnot (by decide) c hc, hnot (by decide) c hc, hnot (by decide) c hc⟩
      obtain ⟨seen, hseen⟩ := hr.exists_urlText
        (isInUrl_of_feedAll (fun hmem => (hplain _ hmem).1 rfl) hs)
      rw [(hseen.readAll hplain hs).urlPart_eq.1] at hpart
      rcases Url.isSpace_or_isSchemeChar hpart '<' (by simp) with hc | hc <;>
        exact absurd hc (by decide)
    | reference _ hd' => rw [hd] at hd'; cases hd'
    | markup _ _ hs' | name _ _ _ hs' | commentEnd _ _ hs' => rw [hs'] at hstate; cases hstate

theorem ofContext_isInUrl (hs : ctx.state.isInUrl = true) :
    Escaper.ofContext ctx = .url ctx.urlPart := by
  cases hstate : ctx.state with
  | url => simp [Escaper.ofContext, hstate]
  | css mode =>
    cases mode <;> simp_all [State.isInUrl, State.isUrl, Escaper.ofContext, Escaper.ofCss]
  | _ => simp_all [State.isInUrl, State.isUrl]

theorem inCode_of_isInUrl (hs : ctx.state.isInUrl = true) : ctx.InCode := by
  cases hstate : ctx.state <;> simp_all [State.isInUrl, State.isUrl, InCode, State.isJs,
    State.isCss]

end Context

namespace Writer

variable {w : Writer} {t : Text}

/-- The writer after several values. -/
def writeValues (w : Writer) (values : List Value) : Writer :=
  values.foldl (fun w value => (w.writeValue value).writer) w

/-- What a writer writes for a value in a URL, and that it stays in the URL. -/
theorem urlText_writeValue (hw : Reachable w) (hopen : w.closed = false) (h : w.context.UrlText t)
    (he : w.context.flags.escaping = false)
    (hheld : w.held.text = [] ∨ w.decided.inAttrValue = true) (value : Value) :
    let written := (Escaper.url w.context.urlPart).escape { schemes := w.schemes }
      (w.serializer.display value)
    let next := (w.writeValue value).writer
    w.Reads written next ∧ next.context.UrlText (t ++ written)
      ∧ next.context.flags.escaping = false := by
  have hescaper := Context.ofContext_isInUrl h.isInUrl
  have hnormal {options : EscapeOptions} {s : Text} :
      ∀ c ∈ (Escaper.url w.context.urlPart).escape options s, Url.isNormal c = true :=
    fun c hc => isNormal_of_mem_escape hc
  have hreads := reads_writeValue hw hopen (Context.inCode_of_isInUrl h.isInUrl) hheld value
    (fun c hc => by
      rw [hescaper] at hc
      exact ⟨ne_of_class (hnormal c hc) (by decide), ne_of_class (hnormal c hc) (by decide)⟩)
  -- no backslash is open, so none is put in front
  have hread : w.readText value = (Escaper.url w.context.urlPart).escape { schemes := w.schemes }
      (w.serializer.display value) := by
    rw [readText, hescaper, Context.readFor, hescaper, Context.secondBackslash,
      Context.hasPartialEscape_of_escaping he]
    cases w.context.urlPart <;> rfl
  rw [hread] at hreads
  obtain ⟨htext, hescaping⟩ := h.append he hnormal
  exact ⟨hreads, by rwa [hreads.context], by rwa [hreads.context]⟩

/-- **Values are read into the URL one after the other**, each escaped for the part that has been
reached by then. -/
theorem urlText_writeValues (hw : Reachable w) (hopen : w.closed = false)
    (h : w.context.UrlText t) (he : w.context.flags.escaping = false)
    (hheld : w.held.text = [] ∨ w.decided.inAttrValue = true) (values : List Value) :
    (w.writeValues values).context.UrlText
      (t ++ Url.outputs w.schemes w.context.urlPart (values.map w.serializer.display)) := by
  induction values generalizing w t with
  | nil => simpa [writeValues, Url.outputs] using h
  | cons value values ih =>
    obtain ⟨hreads, htext, hescaping⟩ := urlText_writeValue hw hopen h he hheld value
    have hnext : Reachable (w.writeValue value).writer := hw.call w (.writeValue value)
    have hlater := ih hnext (hreads.closed.trans hopen) htext hescaping (.inl hreads.held)
    have hpart := htext.urlPart_eq.1
    rw [Url.partOf_append, ← h.urlPart_eq.1] at hpart
    rw [hpart, hreads.schemes, hreads.serializer, List.append_assoc] at hlater
    exact hlater

/-- **Values never spell a scheme that is not allowed**, not even together. Of a URL in which only
whitespace or the start of a name has been read, values after it make a URL without a scheme, or
with an allowed one that no trusted text has started. -/
theorem spelled_scheme_is_allowed (hw : Reachable w) (hs : w.context.state.isInUrl = true)
    (hpart : w.context.urlPart = .start ∨ w.context.urlPart = .scheme) (values : List Value) :
    (∃ seen, w.context.UrlText seen)
      ∧ ∀ seen, w.context.UrlText seen →
        let u := seen
          ++ Url.outputs w.schemes w.context.urlPart (values.map w.serializer.display)
        (w.closed = false → (w.writeValues values).context.UrlText u)
          ∧ ∀ run rest, u.dropWhile isHtmlSpace = run ++ ':' :: rest →
            (∀ c ∈ run, Url.isSchemeChar c = true) →
              w.context.urlPart = .start
                ∧ ∃ scheme, Url.Scheme.ofName? run = some scheme ∧ scheme ∈ w.schemes := by
  refine ⟨hw.context.exists_urlText hs, fun seen hseen => ⟨fun hopen => ?_, ?_⟩⟩
  · have hheld : w.held.text = [] ∨ w.decided.inAttrValue = true := by
      rcases hw.valid.held with hnone | hu
      · exact .inl hnone
      · exact .inr (hu.inAttrValue_of_isInUrl hw.decided hs hpart)
    exact urlText_writeValues hw hopen hseen (hseen.escaping_eq hpart) hheld values
  · intro run rest heq hrun
    have hseenPart := hseen.urlPart_eq.1
    rw [hseenPart] at heq hpart ⊢
    exact Url.scheme_of_seen hpart heq hrun

/-- A space, an empty value, and a value with a scheme before another one. -/
theorem scheme_after_empty_value :
    let w := startingWith "<a href=' ".toList
    let values := [Value.str [], .str "HTTPS://x/".toList, .str "a:b".toList]
    w.context.state.isInUrl = true ∧ w.context.urlPart = .start ∧ w.closed = false
      ∧ (w.writeValues values).context.UrlText " HTTPS://x/a:b".toList
      ∧ ∃ scheme, Url.Scheme.ofName? "HTTPS".toList = some scheme ∧ scheme ∈ w.schemes := by
  intro w values
  have hstate : w.context.state.isInUrl = true := by decide +kernel
  have hpart : w.context.urlPart = .start := by decide +kernel
  have hopen : w.closed = false := by decide +kernel
  have hseen : w.context.UrlText [' '] := by
    have hcontext :
        w.context = (Context.attrValue { attr := some .url } .singleQuote).feed ' ' := by
      decide +kernel
    rw [hcontext]
    exact .read _ [] (.value _ _ rfl) ' ' (.inl rfl)
  -- the outputs of the three values, of which the first is empty
  have hu : [' '] ++ Url.outputs w.schemes w.context.urlPart (values.map w.serializer.display)
      = " HTTPS://x/a:b".toList := by decide +kernel
  obtain ⟨-, hall⟩ := spelled_scheme_is_allowed (reachable_startingWith "<a href=' ".toList) hstate
    (.inl hpart) values
  obtain ⟨hread, hscheme⟩ := hall [' '] hseen
  refine ⟨hstate, hpart, hopen, hu ▸ hread hopen, ?_⟩
  have hsplit : " HTTPS://x/a:b".toList.dropWhile isHtmlSpace
      = "HTTPS".toList ++ ':' :: "//x/a:b".toList := by decide +kernel
  have hname : ∀ c ∈ "HTTPS".toList, Url.isSchemeChar c = true :=
    List.all_eq_true.mp (by decide)
  exact (hscheme "HTTPS".toList "//x/a:b".toList (by rw [hu]; exact hsplit) hname).2

end Writer

end SafeMarkup
