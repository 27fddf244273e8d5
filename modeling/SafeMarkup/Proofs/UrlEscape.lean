import SafeMarkup.Directive
import SafeMarkup.Proofs.CharRef
import SafeMarkup.Proofs.JsEscape

/-!
# Escaped text in URLs

Whatever part of a URL a value continues, what is written for it consists of characters with a place
in URLs. Quotes, backslashes, parentheses and whitespace are not among them, so neither a URL in CSS
nor a string around it ends.
-/

namespace SafeMarkup

namespace Url

theorem isNormal_of_isHexDigit {c : Char} (h : isHexDigit c = true) : isNormal c = true := by
  simp [isNormal, isUnreserved, Html.CharRef.isAlphanum_of_isHexDigit h]

theorem mem_percentChar {c d : Char} (h : d ∈ percentChar c) : d = '%' ∨ isHexDigit d = true := by
  obtain ⟨b, -, hd⟩ := List.mem_flatMap.mp h
  have hlt : b.toNat / 16 < 16 := by
    have := b.toNat_lt
    omega
  simp only [percent, List.mem_cons, List.not_mem_nil, or_false] at hd
  rcases hd with rfl | rfl | rfl
  · exact .inl rfl
  · exact .inr (isHexDigit_digitChar hlt)
  · exact .inr (isHexDigit_digitChar (Nat.mod_lt _ (by decide)))

/-- Every character has a byte, so something is written for it. -/
theorem exists_percentChar (c : Char) : ∃ digits, percentChar c = '%' :: digits := by
  cases hb : String.utf8EncodeChar c with
  | nil =>
    have hlen := congrArg List.length hb
    rw [String.length_utf8EncodeChar] at hlen
    exact absurd hlen (Nat.ne_of_gt c.utf8Size_pos)
  | cons b bytes => exact ⟨_, by rw [percentChar, hb, List.flatMap_cons]; rfl⟩

/-- What is written for a text is in a class if the kept characters and percent forms are. -/
theorem forall_encodeUnless {keep : Char → Bool} {t : Text} {p : Char → Prop}
    (hkept : ∀ c ∈ t, keep c = true → p c) (hpercent : p '%')
    (hdigit : ∀ c, isHexDigit c = true → p c) : ∀ c ∈ encodeUnless keep t, p c := by
  intro d hd
  obtain ⟨c, hc, hd⟩ := List.mem_flatMap.mp hd
  split at hd
  · next hkeep =>
    rw [List.mem_singleton.mp hd]
    exact hkept c hc hkeep
  · rcases mem_percentChar hd with rfl | hhex
    · exact hpercent
    · exact hdigit d hhex

theorem isNormal_of_mem_encodeUnless {keep : Char → Bool}
    (hkeep : ∀ c, keep c = true → isNormal c = true) {t : Text} {d : Char}
    (h : d ∈ encodeUnless keep t) : isNormal d = true :=
  forall_encodeUnless (fun c _ hc => hkeep c hc) rfl (fun _ => isNormal_of_isHexDigit) d h

theorem isNormal_of_mem_normalize {t : Text} {d : Char} (h : d ∈ normalize t) :
    isNormal d = true :=
  isNormal_of_mem_encodeUnless (fun _ hc => hc) h

theorem encodeUnless_ne_nil {keep : Char → Bool} {t : Text} (h : t ≠ []) :
    encodeUnless keep t ≠ [] := by
  rcases t with _ | ⟨c, t⟩
  · exact absurd rfl h
  · obtain ⟨digits, hdigits⟩ := exists_percentChar c
    simp only [encodeUnless, List.flatMap_cons]
    split <;> simp [hdigits]

theorem normalize_cons {c : Char} (hc : isNormal c = true) (t : Text) :
    normalize (c :: t) = c :: normalize t := by
  rw [normalize, encodeUnless, List.flatMap_cons, if_pos hc]
  rfl

/-! ### Continuations of schemes -/

/-- Normal, and not the end of a scheme. -/
def isNormalInScheme (c : Char) : Bool := isNormal c && c != ':'

theorem isNormalInScheme_of_isHexDigit {c : Char} (h : isHexDigit c = true) :
    isNormalInScheme c = true := by
  rw [isNormalInScheme, isNormal_of_isHexDigit h, Bool.true_and, bne_iff_ne]
  exact ne_of_class h (by decide)

theorem endsSchemePart_of_isHexDigit {c : Char} (h : isHexDigit c = true) :
    endsSchemePart c = false := by
  have hne {d : Char} (hd : isHexDigit d = false) : c ≠ d := ne_of_class h hd
  simp [endsSchemePart, hne (d := '/') rfl, hne (d := '?') rfl, hne (d := '#') rfl]

/-- A text is normalized as two: what may be in the scheme, and what comes after it. -/
theorem exists_normalizeInScheme (t : Text) :
    ∃ start rest, normalizeInScheme t = start ++ rest
      ∧ (∀ c ∈ start, isNormalInScheme c = true ∧ endsSchemePart c = false)
      ∧ (∀ c ∈ rest, isNormal c = true)
      ∧ (rest = [] ∨ ∃ d more, rest = d :: more ∧ endsSchemePart d = true) := by
  refine ⟨_, _, rfl, ?_, fun c hc => isNormal_of_mem_normalize hc, ?_⟩
  · refine forall_encodeUnless (fun c hc hkeep => ⟨hkeep, ?_⟩) (by decide) fun c hc =>
      ⟨isNormalInScheme_of_isHexDigit hc, endsSchemePart_of_isHexDigit hc⟩
    simpa using List.mem_takeWhile_imp hc
  · cases hdrop : t.dropWhile (!endsSchemePart ·) with
    | nil => exact .inl rfl
    | cons d z =>
      have hd : endsSchemePart d = true := by
        have := List.head?_dropWhile_not (!endsSchemePart ·) t
        simpa [hdrop] using this
      have hnormal : isNormal d = true := by simp [isNormal, hd]
      exact .inr ⟨d, normalize z, normalize_cons hnormal z, hd⟩

end Url

/-- **What is written in a URL** consists of characters that may occur there. -/
theorem isNormal_of_mem_escape {part : Url.Part} {options : EscapeOptions} {t : Text} {d : Char}
    (h : d ∈ (Escaper.url part).escape options t) : Url.isNormal d = true := by
  cases part with
  | start =>
    simp only [Escaper.escape, Url.filter] at h
    split at h
    · exact Url.isNormal_of_mem_normalize h
    · -- a refused URL is replaced by a fixed one
      have hall : Url.placeholder.all Url.isNormal = true := by decide
      exact List.all_eq_true.mp hall d h
  | scheme =>
    rcases List.mem_append.mp h with h | h
    · exact Url.isNormal_of_mem_encodeUnless (fun c hc => (Bool.and_eq_true_iff.mp hc).1) h
    · exact Url.isNormal_of_mem_normalize h
  | preQuery => exact Url.isNormal_of_mem_normalize h
  | queryOrFragment =>
    refine Url.isNormal_of_mem_encodeUnless (fun c hc => ?_) h
    simp [Url.isNormal, hc]

/-- Something is written exactly if there is something to write. -/
theorem escape_url_eq_nil_iff {part : Url.Part} {options : EscapeOptions} {t : Text} :
    (Escaper.url part).escape options t = [] ↔ t = [] := by
  constructor
  · intro h
    by_contra hne
    cases part with
    | start =>
      simp only [Escaper.escape, Url.filter] at h
      split at h
      · exact Url.encodeUnless_ne_nil hne h
      · exact absurd h (by decide)
    | scheme =>
      -- both parts would be empty, and so would be the text
      obtain ⟨hstart, hend⟩ := List.append_eq_nil_iff.mp h
      have htake : t.takeWhile (!Url.endsSchemePart ·) = [] := by
        by_contra htake
        exact Url.encodeUnless_ne_nil htake hstart
      have hdrop : t.dropWhile (!Url.endsSchemePart ·) = [] := by
        by_contra hdrop
        exact Url.encodeUnless_ne_nil hdrop hend
      apply hne
      rw [← List.takeWhile_append_dropWhile (p := (!Url.endsSchemePart ·)) (l := t), htake, hdrop]
      rfl
    | preQuery => exact Url.encodeUnless_ne_nil hne h
    | queryOrFragment => exact Url.encodeUnless_ne_nil hne h
  · rintro rfl
    cases part <;> rfl

/-- Is the text at the cursor read as a URL? -/
def State.isUrl : State → Bool
  | .url | .css .url | .css .doubleQuotedUrl | .css .singleQuotedUrl => true
  | _ => false

namespace Context

variable {ctx : Context} {c : Char} {t : Text}

/-- A URL goes on as long as nothing comes that may not occur in it. -/
theorem feed_isNormal (hs : ctx.state.isUrl = true) (he : ctx.flags.escaping = false)
    (hc : Url.isNormal c = true) :
    (ctx.feed c).state = ctx.state ∧ (ctx.feed c).flags = ctx.flags := by
  have hne {d : Char} (hd : Url.isNormal d = false) : c ≠ d := ne_of_class hc hd
  -- none of the characters that end a URL is normal
  have hback := hne (show Url.isNormal '\\' = false by decide)
  have hdouble := hne (show Url.isNormal '"' = false by decide)
  have hsingle := hne (show Url.isNormal '\'' = false by decide)
  have hparen := hne (show Url.isNormal ')' = false by decide)
  have hspace : isHtmlSpace c = false := by
    simp only [isHtmlSpace, Bool.or_eq_false_iff, beq_eq_false_iff_ne]
    exact ⟨⟨⟨⟨hne (by decide), hne (by decide)⟩, hne (by decide)⟩, hne (by decide)⟩,
      hne (by decide)⟩
  have hline : Css.isLineEnd c = false := by
    simp only [Css.isLineEnd, Bool.or_eq_false_iff, beq_eq_false_iff_ne]
    exact ⟨⟨hne (by decide), hne (by decide)⟩, hne (by decide)⟩
  cases hstate : ctx.state with
  | url => simp [feed, hstate]
  | css mode =>
    cases mode with
    | url => simp [feed, hstate, feedCss, feedCssUrl, hparen, hspace]
    | doubleQuotedUrl =>
      simp [feed, hstate, feedCss, feedCssQuotedUrl, feedString, he, hback, hdouble, hline]
    | singleQuotedUrl =>
      simp [feed, hstate, feedCss, feedCssQuotedUrl, feedString, he, hback, hsingle, hline]
    | code | slash | doubleQuoted | singleQuoted | urlOpen | blockComment | lineComment =>
      rw [hstate] at hs
      cases hs
  | text | tagName | tag | attrName | afterName | beforeValue | plainValue | js | rcdata | comment
  | bogusComment =>
    rw [hstate] at hs
    cases hs

/-- **Escaped text leaves the cursor in the URL.** -/
theorem feedAll_isNormal (hs : ctx.state.isUrl = true) (he : ctx.flags.escaping = false)
    (ht : ∀ c ∈ t, Url.isNormal c = true) :
    (ctx.feedAll t).state = ctx.state ∧ (ctx.feedAll t).flags = ctx.flags := by
  induction t generalizing ctx with
  | nil => exact ⟨rfl, rfl⟩
  | cons c t ih =>
    have ht' := List.forall_mem_cons.mp ht
    obtain ⟨hstate, hflags⟩ := feed_isNormal hs he ht'.1
    obtain ⟨hstate', hflags'⟩ := ih (by rwa [hstate]) (by rwa [hflags]) ht'.2
    exact ⟨hstate'.trans hstate, hflags'.trans hflags⟩

/-- After `url(` escaped text starts a URL without quotes. -/
theorem feedAll_urlOpen (hs : ctx.state = .css .urlOpen) (he : ctx.flags.escaping = false)
    (ht : ∀ c ∈ t, Url.isNormal c = true) (hne : t ≠ []) :
    (ctx.feedAll t).state = .css .url := by
  rcases t with _ | ⟨c, t⟩
  · exact absurd rfl hne
  have ht' := List.forall_mem_cons.mp ht
  have hc {d : Char} (hd : Url.isNormal d = false) : c ≠ d := ne_of_class ht'.1 hd
  have hspace : isHtmlSpace c = false := isHtmlSpace_of_class ht'.1 (by decide)
  have hstep : ctx.feed c = { ctx with state := .css .url, urlPart := ctx.urlPart.next c } := by
    simp [feed, hs, feedCss, feedCssUrlOpen, hspace,
      hc (show Url.isNormal '"' = false by decide), hc (show Url.isNormal '\'' = false by decide),
      hc (show Url.isNormal ')' = false by decide)]
  have hnext : (ctx.feed c).state = .css .url := by rw [hstep]
  have hflags : (ctx.feed c).flags = ctx.flags := by rw [hstep]
  rw [feedAll_cons]
  exact (feedAll_isNormal (by rw [hnext]; rfl) (by rw [hflags, he]) ht'.2).1.trans hnext

end Context

end SafeMarkup
