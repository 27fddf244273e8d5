import Mathlib.Data.List.DropRight
import SafeMarkup.Proofs.JsEscape
import SafeMarkup.Proofs.ReachableContext

/-!
# Where literals and comments end

A literal or comment of JS or CSS ends at the first character that can end it, and up to there the
cursor stays in it. What can end it is said of the text that has been read of it: backslashes are
counted, and the brackets of a class are looked for. A context remembers three bits of all this
(`Context.Follows`), which reading one more character keeps true (`Context.Follows.feed`).
-/

namespace SafeMarkup

namespace Text

variable {t : Text} {c : Char}

/-- How many backslashes the text ends with. -/
def backslashes (t : Text) : Nat := (t.rtakeWhile (· == '\\')).length

/-- A character right after the text is not escaped. -/
def LeavesUnescaped (t : Text) : Prop := t.backslashes % 2 = 0

instance (t : Text) : Decidable t.LeavesUnescaped := inferInstanceAs (Decidable (_ = _))

/-- The text of a pattern ends in a class: an unescaped bracket has opened it, and no unescaped
bracket after that one has closed it. -/
def EndsInClass (t : Text) : Prop :=
  ∃ before after, t = before ++ '[' :: after ∧ before.LeavesUnescaped
    ∧ ∀ a b, after = a ++ ']' :: b → ¬ (before ++ '[' :: a).LeavesUnescaped

/-- The text ends in a `*`. -/
def EndsInStar (t : Text) : Prop := ['*'] <:+ t

theorem leavesUnescaped_nil : LeavesUnescaped [] := rfl

theorem backslashes_append_singleton (t : Text) (c : Char) :
    backslashes (t ++ [c]) = if c = '\\' then t.backslashes + 1 else 0 := by
  rw [backslashes, List.rtakeWhile_concat]
  by_cases h : c = '\\' <;> simp [h, backslashes]

/-- A backslash escapes what comes after it, unless it is escaped itself. -/
theorem leavesUnescaped_append_singleton :
    (t ++ [c]).LeavesUnescaped ↔ (t.LeavesUnescaped → c ≠ '\\') := by
  rw [LeavesUnescaped, LeavesUnescaped, backslashes_append_singleton]
  split
  · next h =>
    simp only [h, ne_eq, not_true_eq_false, imp_false]
    omega
  · next h => simp [h]

theorem not_endsInClass_nil : ¬ EndsInClass [] := by
  rintro ⟨before, after, heq, -⟩
  simp at heq

/-- The last character is the one that is looked for, or that one stands before it. -/
theorem append_singleton_eq_iff {a b : Text} {d : Char} :
    t ++ [c] = a ++ d :: b ↔
      (t = a ∧ c = d ∧ b = []) ∨ ∃ b', b = b' ++ [c] ∧ t = a ++ d :: b' := by
  constructor
  · intro h
    rcases List.eq_nil_or_concat b with rfl | ⟨b', x, rfl⟩
    · obtain ⟨ht, hc⟩ := List.append_inj' h rfl
      exact .inl ⟨ht, List.singleton_inj.mp hc, rfl⟩
    · rw [List.concat_eq_append, ← List.cons_append, ← List.append_assoc] at h
      obtain ⟨ht, hc⟩ := List.append_inj' h rfl
      exact .inr ⟨b', by rw [List.concat_eq_append, hc], ht⟩
  · rintro (⟨rfl, rfl, rfl⟩ | ⟨b', rfl, rfl⟩) <;> simp

/-- A class goes on until an unescaped bracket closes it. -/
theorem endsInClass_append_singleton :
    (t ++ [c]).EndsInClass ↔
      (t.LeavesUnescaped ∧ c = '[') ∨ (t.EndsInClass ∧ (t.LeavesUnescaped → c ≠ ']')) := by
  constructor
  · rintro ⟨before, after, heq, hopen, hclose⟩
    rcases append_singleton_eq_iff.mp heq with ⟨rfl, hc, -⟩ | ⟨after, rfl, rfl⟩
    · exact .inl ⟨hopen, hc⟩
    · refine .inr ⟨⟨before, after, rfl, hopen, fun a b hab => ?_⟩, fun hunescaped hc => ?_⟩
      · exact hclose a (b ++ [c]) (by simp [hab])
      · exact hclose after [] (by rw [hc]) hunescaped
  · rintro (⟨hopen, rfl⟩ | ⟨⟨before, after, rfl, hopen, hclose⟩, hc⟩)
    · exact ⟨t, [], rfl, hopen, fun a b hab => by simp at hab⟩
    · refine ⟨before, after ++ [c], by simp, hopen, fun a b hab hunescaped => ?_⟩
      rcases append_singleton_eq_iff.mp hab with ⟨rfl, hd, -⟩ | ⟨b', -, rfl⟩
      · exact hc hunescaped hd
      · exact hclose a b' rfl hunescaped

theorem not_endsInStar_nil : ¬ EndsInStar [] := by simp [EndsInStar]

theorem endsInStar_append_singleton : (t ++ [c]).EndsInStar ↔ c = '*' := by
  rw [EndsInStar, List.singleton_suffix_iff_getLast?_eq_some, List.getLast?_concat,
    Option.some_inj]

end Text

/-! ### What ends what -/

/-- The kinds of literals and comments. -/
inductive Enclosure where
  /-- A string, which `quote` ends. So does a line's end if it is one by `endsLine`. -/
  | string (quote : Char) (endsLine : Char → Bool)
  | regexp
  | blockComment
  | lineComment (endsLine : Char → Bool)

/-- The kind of literal or comment that the cursor is in. -/
def State.enclosure? : State → Option Enclosure
  | .js .doubleQuoted => some (.string '"' fun _ => false)
  | .js .singleQuoted => some (.string '\'' fun _ => false)
  | .js .template => some (.string '\x60' fun _ => false)
  | .js .regexp => some .regexp
  | .js .blockComment => some .blockComment
  | .js .lineComment => some (.lineComment Js.isLineEnd)
  | .css .doubleQuoted | .css .doubleQuotedUrl => some (.string '"' Css.isLineEnd)
  | .css .singleQuoted | .css .singleQuotedUrl => some (.string '\'' Css.isLineEnd)
  | .css .blockComment => some .blockComment
  | .css .lineComment => some (.lineComment Css.isLineEnd)
  | _ => none

namespace Enclosure

variable {e : Enclosure} {state : State} {t : Text} {c : Char}

/-- Does a backslash escape the next character here? -/
def hasEscapes : Enclosure → Bool
  | .string _ _ | .regexp => true
  | .blockComment | .lineComment _ => false

theorem allowsEscapes_eq (he : state.enclosure? = some e) : state.allowsEscapes = e.hasEscapes := by
  cases state with
  | js mode | css mode => cases mode <;> cases he <;> rfl
  | _ => cases he

theorem eq_regexp (he : state.enclosure? = some .regexp) : state = .js .regexp := by
  cases state with
  | js mode | css mode => cases mode <;> first | rfl | cases he
  | _ => cases he

/-- No code is a literal or comment itself. -/
theorem enclosure?_entry (state : State) : state.entry.enclosure? = none := by
  cases state <;> rfl

/-- Does `c` end the literal or comment, if it comes right after the text `t` of it? -/
def EndsAt : Enclosure → Text → Char → Prop
  | .string quote endsLine, t, c => t.LeavesUnescaped ∧ (c = quote ∨ endsLine c = true)
  | .regexp, t, c =>
    t.LeavesUnescaped ∧ ((c = '/' ∧ ¬ t.EndsInClass) ∨ Js.isLineEnd c = true)
  | .blockComment, t, c => t.EndsInStar ∧ c = '/'
  | .lineComment endsLine, _, c => endsLine c = true

/-- No character of the text ends the literal or comment. -/
def StaysOpen (e : Enclosure) (t : Text) : Prop := ∀ a c b, t = a ++ c :: b → ¬ e.EndsAt a c

theorem staysOpen_nil (e : Enclosure) : e.StaysOpen [] := by
  intro a c b h
  simp at h

theorem staysOpen_append_singleton :
    e.StaysOpen (t ++ [c]) ↔ e.StaysOpen t ∧ ¬ e.EndsAt t c := by
  constructor
  · exact fun h => ⟨fun a d b hab => h a d (b ++ [c]) (by simp [hab]), h t c [] rfl⟩
  · rintro ⟨h, hc⟩ a d b hab
    rcases Text.append_singleton_eq_iff.mp hab with ⟨rfl, rfl, -⟩ | ⟨b', -, rfl⟩
    · exact hc
    · exact h a d b' rfl

end Enclosure

namespace Context

variable {ctx : Context} {state : State} {e : Enclosure} {t : Text} {c : Char}
variable {quote : Char} {endsLine : Char → Bool}

/-! ### One character of a literal or comment -/

/-- The cursor is in a literal or comment of which `t` has been read, and of that it remembers what
matters for the next character. -/
@[mk_iff]
structure Follows (ctx : Context) (state : State) (e : Enclosure) (t : Text) : Prop where
  inState : ctx.state = state
  escaping : ctx.flags.escaping = true ↔ e.hasEscapes = true ∧ ¬ t.LeavesUnescaped
  inClass : ctx.flags.inClass = true ↔ e = .regexp ∧ t.EndsInClass
  afterStar : ctx.flags.afterStar = true ↔ e = .blockComment ∧ t.EndsInStar

/-- A fresh context follows the empty text. -/
theorem follows_nil (ctx : Context) (hs : ctx.state = state) (hf : ctx.flags = {}) (e : Enclosure) :
    ctx.Follows state e [] where
  inState := hs
  escaping := by simp [hf, Text.leavesUnescaped_nil]
  inClass := by simp [hf, Text.not_endsInClass_nil]
  afterStar := by simp [hf, Text.not_endsInStar_nil]

/-! ### Strings -/

/-- A backslash ends no string. -/
theorem not_endsAt_backslash (he : state.enclosure? = some (.string quote endsLine)) :
    ¬ Enclosure.EndsAt (.string quote endsLine) t '\\' := by
  rintro ⟨-, hends⟩
  cases state with
  | js mode | css mode => cases mode <;> cases he <;> simp [Css.isLineEnd] at hends
  | _ => cases he

/-- A string is read in the same way wherever it stands. Of a URL in quotes, how much has been read
is remembered besides. -/
theorem feed_eq_feedString (he : ctx.state.enclosure? = some (.string quote endsLine)) (c : Char) :
    (ctx.feed c).state = (ctx.feedString quote ctx.state.entry endsLine c).state
      ∧ (ctx.feed c).flags = (ctx.feedString quote ctx.state.entry endsLine c).flags := by
  cases hs : ctx.state with
  | js mode =>
    rw [hs] at he
    cases mode with
    | doubleQuoted | singleQuoted | template =>
      cases he
      simp [feed, hs, feedJs, State.entry]
    | _ => cases he
  | css mode =>
    rw [hs] at he
    cases mode with
    | doubleQuoted | singleQuoted =>
      cases he
      simp [feed, hs, feedCss, State.entry]
    | doubleQuotedUrl | singleQuotedUrl =>
      cases he
      -- the part of the URL is set besides, which is neither state nor flag
      simp only [feed, hs, feedCss, feedCssQuotedUrl, State.entry]
      split <;> exact ⟨rfl, rfl⟩
    | _ => cases he
  | _ =>
    rw [hs] at he
    cases he

/-- A string goes on until its quote or a line's end is read unescaped. -/
theorem Follows.feed_string (h : ctx.Follows state (.string quote endsLine) t)
    (he : state.enclosure? = some (.string quote endsLine)) (c : Char) :
    (Enclosure.EndsAt (.string quote endsLine) t c → (ctx.feed c).state = state.entry)
      ∧ (¬ Enclosure.EndsAt (.string quote endsLine) t c →
        (ctx.feed c).Follows state (.string quote endsLine) (t ++ [c])) := by
  obtain ⟨hs, hesc, hclass, hstar⟩ := h
  obtain ⟨hstate, hflags⟩ := feed_eq_feedString (by rw [hs]; exact he) c
  rw [follows_iff, hstate, hflags, hs, feedString, Text.leavesUnescaped_append_singleton]
  simp only [Enclosure.hasEscapes, true_and, reduceCtorEq, false_and, iff_false,
    Bool.not_eq_true] at hesc hclass hstar ⊢
  by_cases hu : t.LeavesUnescaped
  · have hesc' : ctx.flags.escaping = false := by simpa [hu] using hesc
    by_cases hback : c = '\\'
    · have hnot := not_endsAt_backslash (t := t) he
      simp [hback, hu, hs, hnot, hesc', hclass, hstar]
    by_cases hquote : c = quote
    · have hback' : quote ≠ '\\' := hquote ▸ hback
      simp [hquote, hback', hu, hesc', Enclosure.EndsAt]
    by_cases hline : endsLine c = true <;>
      simp [hback, hquote, hline, hu, hs, hesc', hclass, hstar, Enclosure.EndsAt]
  · -- the character is escaped
    have hesc' : ctx.flags.escaping = true := hesc.mpr hu
    simp [hu, hs, hesc', hclass, hstar, Enclosure.EndsAt]

/-! ### Regular expressions -/

/-- A pattern goes on until a `/` outside of classes or a line's end is read unescaped. -/
theorem Follows.feed_regexp (h : ctx.Follows (.js .regexp) .regexp t) (c : Char) :
    (Enclosure.EndsAt .regexp t c → (ctx.feed c).state = .js .code)
      ∧ (¬ Enclosure.EndsAt .regexp t c →
        (ctx.feed c).Follows (.js .regexp) .regexp (t ++ [c])) := by
  obtain ⟨hs, hesc, hclass, hstar⟩ := h
  rw [follows_iff, feed_eq_regexp ctx hs, Text.leavesUnescaped_append_singleton,
    Text.endsInClass_append_singleton, feedJsRegexp, Enclosure.EndsAt]
  simp only [Enclosure.hasEscapes, true_and, reduceCtorEq, false_and, iff_false,
    Bool.not_eq_true] at hesc hclass hstar ⊢
  -- a character counts only where no backslash is open before it
  by_cases hu : t.LeavesUnescaped
  · have hesc' : ctx.flags.escaping = false := by simpa [hu] using hesc
    rw [if_neg (by simp [hesc'])]
    by_cases hback : c = '\\'
    · simp [hback, hu, hs, hclass, hstar, Js.isLineEnd]
    by_cases hopen : c = '['
    · simp [hopen, hu, hs, hesc', hstar, Js.isLineEnd]
    by_cases hclose : c = ']'
    · simp [hclose, hu, hs, hesc', hstar, Js.isLineEnd]
    rw [if_neg hback, if_neg hopen, if_neg hclose]
    by_cases hslash : c = '/'
    · by_cases hin : t.EndsInClass
      · have hclass' : ctx.flags.inClass = true := hclass.mpr hin
        simp [hslash, hu, hin, hs, hesc', hclass', hstar, Js.isLineEnd]
      · have hclass' : ctx.flags.inClass = false := by simpa [hin] using hclass
        simp [hslash, hu, hin, hclass']
    by_cases hline : Js.isLineEnd c = true
    · simp [hslash, hline, hu]
    · simp [hback, hopen, hclose, hslash, hline, hu, hs, hesc', hclass, hstar]
  · -- the character is escaped, so it neither ends the pattern nor opens or closes a class
    have hesc' : ctx.flags.escaping = true := hesc.mpr hu
    simp [hesc', hu, hs, hclass, hstar]

/-! ### Comments -/

/-- Block comments are read alike in both languages. -/
theorem feed_eq_feedBlockComment (he : ctx.state.enclosure? = some .blockComment) (c : Char) :
    ctx.feed c = ctx.feedBlockComment ctx.state.entry c := by
  cases hs : ctx.state with
  | js mode | css mode =>
    rw [hs] at he
    cases mode <;> cases he
    simp [feed, hs, feedJs, feedCss, State.entry]
  | _ =>
    rw [hs] at he
    cases he

theorem feed_eq_of_lineComment (he : ctx.state.enclosure? = some (.lineComment endsLine))
    (c : Char) :
    ctx.feed c = if endsLine c then { ctx with state := ctx.state.entry } else ctx := by
  cases hs : ctx.state with
  | js mode | css mode =>
    rw [hs] at he
    cases mode <;> cases he
    simp [feed, hs, feedJs, feedCss, State.entry]
  | _ =>
    rw [hs] at he
    cases he

/-- A block comment goes on until a `/` is read right after a `*` of it. -/
theorem Follows.feed_blockComment (h : ctx.Follows state .blockComment t)
    (he : state.enclosure? = some .blockComment) (c : Char) :
    (Enclosure.EndsAt .blockComment t c → (ctx.feed c).state = state.entry)
      ∧ (¬ Enclosure.EndsAt .blockComment t c →
        (ctx.feed c).Follows state .blockComment (t ++ [c])) := by
  obtain ⟨hs, hesc, hclass, hstar⟩ := h
  have hends : Enclosure.EndsAt .blockComment t c ↔ c = '/' ∧ ctx.flags.afterStar = true := by
    simp [Enclosure.EndsAt, hstar, and_comm]
  rw [hends, feed_eq_feedBlockComment (by rw [hs]; exact he), hs, feedBlockComment]
  refine ⟨fun hends => by rw [if_pos hends], fun hends => ?_⟩
  rw [if_neg hends]
  exact ⟨hs, by simpa [Enclosure.hasEscapes] using hesc, by simpa using hclass,
    by simp [Text.endsInStar_append_singleton]⟩

/-- A line comment goes on until the end of the line. -/
theorem Follows.feed_lineComment (h : ctx.Follows state (.lineComment endsLine) t)
    (he : state.enclosure? = some (.lineComment endsLine)) (c : Char) :
    (Enclosure.EndsAt (.lineComment endsLine) t c → (ctx.feed c).state = state.entry)
      ∧ (¬ Enclosure.EndsAt (.lineComment endsLine) t c →
        (ctx.feed c).Follows state (.lineComment endsLine) (t ++ [c])) := by
  obtain ⟨hs, hesc, hclass, hstar⟩ := h
  rw [feed_eq_of_lineComment (by rw [hs]; exact he), hs, Enclosure.EndsAt]
  refine ⟨fun hends => by rw [if_pos hends], fun hends => ?_⟩
  rw [if_neg hends]
  exact ⟨hs, by simpa [Enclosure.hasEscapes] using hesc, by simpa using hclass,
    by simpa using hstar⟩

/-! ### A whole literal or comment -/

/-- **A character either ends a literal or comment, or becomes a part of it.** -/
theorem Follows.feed (h : ctx.Follows state e t) (he : state.enclosure? = some e) (c : Char) :
    (e.EndsAt t c → (ctx.feed c).state = state.entry)
      ∧ (¬ e.EndsAt t c → (ctx.feed c).Follows state e (t ++ [c])) := by
  cases e with
  | string quote endsLine => exact h.feed_string he c
  | regexp =>
    obtain rfl := Enclosure.eq_regexp he
    exact h.feed_regexp c
  | blockComment => exact h.feed_blockComment he c
  | lineComment endsLine => exact h.feed_lineComment he c

/-- What has nothing in it that ends a literal or comment is a part of it. -/
theorem Follows.feedAll (h : ctx.Follows state e []) (he : state.enclosure? = some e)
    (ht : e.StaysOpen t) : (ctx.feedAll t).Follows state e t := by
  induction t using List.reverseRecOn with
  | nil => exact h
  | append_singleton t c ih =>
    obtain ⟨ht, hc⟩ := Enclosure.staysOpen_append_singleton.mp ht
    rw [feedAll_append_singleton]
    exact ((ih ht).feed he c).2 hc

/-! ### Where literals and comments start -/

/-- From a literal or comment a character leads nowhere but to the code after it. -/
theorem state_feed_of_enclosure (he : ctx.state.enclosure? = some e) (c : Char) :
    (ctx.feed c).state = ctx.state ∨ (ctx.feed c).state = ctx.state.entry := by
  cases e with
  | string quote endsLine =>
    rw [(feed_eq_feedString he c).1]
    exact state_feedString ctx quote _ endsLine c
  | regexp =>
    have hs := Enclosure.eq_regexp he
    rw [feed_eq_regexp ctx hs, hs, feedJsRegexp]
    -- every rule of patterns stays in the pattern or ends it
    repeat' split
    all_goals first | exact .inl hs | exact .inr rfl
  | blockComment =>
    rw [feed_eq_feedBlockComment he, feedBlockComment]
    split
    · exact .inr rfl
    · exact .inl rfl
  | lineComment endsLine =>
    rw [feed_eq_of_lineComment he]
    split
    · exact .inr rfl
    · exact .inl rfl

/-- Outside of literals and comments nothing is remembered of the previous characters. -/
theorem Remembers.flags_of_enclosure (h : ctx.Remembers) (he : ctx.state.enclosure? = none) :
    ctx.flags = {} := by
  refine h.flags_eq ?_ ?_ ?_
  · cases hs : ctx.state with
    | js mode | css mode =>
      rw [hs] at he
      cases mode <;> first | rfl | cases he
    | _ => rfl
  · intro hs
    rw [hs] at he
    cases he
  · intro hs
    rw [hs] at he
    cases he

/-- Outside of literals and comments no character is remembered, unless it starts a pattern. -/
theorem flags_feed_of_code (hf : ctx.flags = {}) (he : ctx.state.enclosure? = none)
    (hnext : (ctx.feed c).state ≠ .js .regexp) : (ctx.feed c).flags = {} := by
  cases hs : ctx.state with
  | js mode =>
    rw [hs] at he
    simp only [feed, hs] at hnext ⊢
    cases mode with
    | code => rw [feedJs, flags_feedJsCode, hf]
    | slash =>
      simp only [feedJs, feedJsSlash] at hnext ⊢
      split
      · exact hf
      next hslash =>
        split
        · exact hf
        next hstar =>
          rw [if_neg hslash, if_neg hstar] at hnext
          split
          · next hregexp =>
            -- the pattern is given up at once if the line ends
            simp only [hregexp] at hnext
            unfold feedJsRegexp at hnext ⊢
            repeat' split
            all_goals simp_all
          · rw [flags_feedJsCode, hf]
    | _ => cases he
  | css mode =>
    rw [hs] at he
    simp only [feed, hs]
    cases mode with
    | code | slash | urlOpen | url =>
      simp only [feedCss, feedCssSlash, feedCssUrlOpen, feedCssUrl, feedCssCode]
      repeat' split
      all_goals exact hf
    | _ => cases he
  | _ => simpa [feed, hs] using hf

/-- What opens a literal or comment is not remembered. -/
theorem flags_feed_of_opening (hr : ctx.Remembers) (hs : ctx.state ≠ state)
    (hnext : (ctx.feed c).state = state) (he : state.enclosure? = some e)
    (hregexp : state ≠ .js .regexp) : (ctx.feed c).flags = {} := by
  -- a literal or comment that it had ended would have led to code
  have hcode : ctx.state.enclosure? = none := by
    cases hcase : ctx.state.enclosure? with
    | none => rfl
    | some e' =>
      rcases state_feed_of_enclosure hcase c with h | h
      · exact absurd (h.symm.trans hnext) hs
      · rw [← hnext, h, Enclosure.enclosure?_entry] at he
        cases he
  exact flags_feed_of_code (hr.flags_of_enclosure hcode) hcode (hnext ▸ hregexp)

/-- Right before `t` a literal or comment starts, inside of which the cursor is in `state`. What
opens it has just been read. Of a regular expression that is its `/`, and the next character settles
that it opens no comment. -/
inductive Starts : Context → State → Enclosure → Text → Prop where
  | opened (base : Context) (hbase : base.Reachable) (read : Text) (c : Char) (state : State)
      (e : Enclosure) (he : state.enclosure? = some e) (hregexp : state ≠ .js .regexp)
      (hbefore : (base.feedAll read).state ≠ state)
      (hnext : ((base.feedAll read).feed c).state = state) (t : Text) :
      Starts ((base.feedAll read).feed c) state e t
  | slash (base : Context) (hbase : base.Reachable) (read : Text)
      (hs : (base.feedAll read).state = .js .slash) (hslash : (base.feedAll read).slash = .regexp)
      (t : Text) (ht : ∀ c ∈ t.head?, c ≠ '/' ∧ c ≠ '*') :
      Starts (base.feedAll read) (.js .regexp) .regexp t

theorem Starts.enclosure (h : ctx.Starts state e t) : state.enclosure? = some e := by
  cases h with
  | opened _ _ _ _ _ _ he => exact he
  | slash => rfl

theorem Remembers.feedAll (h : ctx.Remembers) (t : Text) : (ctx.feedAll t).Remembers := by
  induction t generalizing ctx with
  | nil => exact h
  | cons c t ih => exact ih (h.feed c)

/-- The text of a literal or comment is read as if the cursor had been in it from the start. -/
theorem Starts.exists_follows (h : ctx.Starts state e t) :
    ctx.flags = {} ∧ ∃ start : Context, start.Follows state e []
      ∧ ∀ before, before <+: t → before ≠ [] → ctx.feedAll before = start.feedAll before := by
  cases h with
  | opened base hbase read c _ _ he hregexp hbefore hnext =>
    have hf := flags_feed_of_opening (hbase.wellFormed.remembers.feedAll read) hbefore hnext he
      hregexp
    exact ⟨hf, _, follows_nil _ hnext hf e, fun _ _ _ => rfl⟩
  | slash base hbase read hs hslash _ ht =>
    have hf : (base.feedAll read).flags = {} :=
      (hbase.wellFormed.remembers.feedAll read).flags_of_enclosure (by rw [hs]; rfl)
    let start : Context := { base.feedAll read with state := .js .regexp }
    refine ⟨hf, start, follows_nil start rfl hf _, fun before hprefix hne => ?_⟩
    obtain ⟨after, rfl⟩ := hprefix
    obtain ⟨c, rest, rfl⟩ := List.exists_cons_of_ne_nil hne
    obtain ⟨hc, hc'⟩ := ht c rfl
    exact feedAll_slash_regexp hs hslash hc hc'

/-- An escape is left over after an odd number of backslashes, where there are escapes. -/
theorem Follows.hasPartialEscape_iff (h : ctx.Follows state e t) (he : state.enclosure? = some e) :
    ctx.hasPartialEscape = true ↔ state.allowsEscapes = true ∧ t.backslashes % 2 = 1 := by
  rw [hasPartialEscape, Bool.and_eq_true, h.escaping, h.inState, Enclosure.allowsEscapes_eq he,
    Text.LeavesUnescaped, Nat.mod_two_not_eq_zero]
  tauto

/-- **A literal or comment ends exactly at the first character that ends it.** Up to there the
cursor stays in it, and an escape is open exactly after an odd number of backslashes. -/
theorem Starts.ends_at_first (h : ctx.Starts state e t) :
    (∀ before, before <+: t → e.StaysOpen before →
      (ctx.feedAll before).state = (if before = [] then ctx.state else state)
        ∧ ((ctx.feedAll before).hasPartialEscape = true
          ↔ state.allowsEscapes = true ∧ Text.backslashes before % 2 = 1))
      ∧ ∀ before c, before ++ [c] <+: t → e.StaysOpen before → e.EndsAt before c →
        (ctx.feedAll (before ++ [c])).state = state.entry := by
  obtain ⟨hf, start, hstart, hread⟩ := h.exists_follows
  constructor
  · intro before hprefix hopen
    by_cases hne : before = []
    · subst hne
      simp [hasPartialEscape, hf, Text.backslashes]
    · have hfollows := hstart.feedAll h.enclosure hopen
      rw [hread before hprefix hne, if_neg hne]
      exact ⟨hfollows.inState, hfollows.hasPartialEscape_iff h.enclosure⟩
  · intro before c hprefix hopen hends
    rw [hread _ hprefix (by simp), feedAll_append_singleton]
    exact ((hstart.feedAll h.enclosure hopen).feed h.enclosure c).1 hends

/-- Neither the `/` in a class nor the escaped one ends a pattern. -/
theorem slashes_in_pattern :
    let ctx := ((advance {} false "<script>".toList).context).feedAll "x = /".toList
    let pattern := "[/]\\/".toList
    ctx.Starts (.js .regexp) .regexp (pattern ++ "/g".toList)
      ∧ (ctx.feedAll pattern).state = .js .regexp
      ∧ (ctx.feedAll (pattern ++ ['/'])).state = .js .code := by
  intro ctx pattern
  have hstarts : ctx.Starts (.js .regexp) .regexp (pattern ++ "/g".toList) :=
    .slash _ (.advance _ .start _ _) _ rfl rfl _ (by simp [pattern])
  -- character by character, as the definitions look at the text
  have hpattern : pattern = [] ++ ['['] ++ ['/'] ++ [']'] ++ ['\\'] ++ ['/'] := rfl
  have hopen : Enclosure.regexp.StaysOpen pattern := by
    rw [hpattern]
    simp only [Enclosure.staysOpen_append_singleton, Enclosure.EndsAt,
      Text.endsInClass_append_singleton, Text.not_endsInClass_nil]
    exact ⟨⟨⟨⟨⟨Enclosure.staysOpen_nil _, by decide⟩, by decide⟩, by decide⟩, by decide⟩, by decide⟩
  have hends : Enclosure.regexp.EndsAt pattern '/' := by
    rw [hpattern]
    simp only [Enclosure.EndsAt, Text.endsInClass_append_singleton, Text.not_endsInClass_nil]
    decide
  obtain ⟨hstays, hend⟩ := hstarts.ends_at_first
  exact ⟨hstarts, (hstays pattern (List.prefix_append _ _) hopen).1,
    hend pattern '/' (by decide) hopen hends⟩

end Context

end SafeMarkup
