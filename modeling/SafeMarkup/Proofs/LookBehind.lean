import Mathlib.Data.List.DropRight
import SafeMarkup.Proofs.Feed

/-!
# The word before the cursor

JS and CSS decide some characters by the word right before them. Neither keeps the text: letters are
pushed onto a small state, which any other character of code empties. `LookBehind` is what the two
have in common. The state is that of the longest run of letters at the end of the text, whatever
literals, comments and divisions come before it (`LookBehind.remembers_feedAll`). The run never
reaches back into one of these, because none of them ends in a letter.
-/

namespace SafeMarkup

namespace Context

variable {ctx : Context} {c : Char}

/-! ### What leads out of a literal or comment -/

theorem eq_of_state_feedString {quote : Char} {code : State} {endsLine : Char → Bool}
    (h : (ctx.feedString quote code endsLine c).state ≠ ctx.state) :
    c = quote ∨ endsLine c = true := by
  unfold feedString at h
  split_ifs at h with hescaping hback hquote hline
  · exact absurd rfl h
  · exact absurd rfl h
  · exact .inl hquote
  · exact .inr hline
  · exact absurd rfl h

theorem eq_of_state_feedBlockComment {code : State}
    (h : (ctx.feedBlockComment code c).state ≠ ctx.state) : c = '/' := by
  unfold feedBlockComment at h
  split_ifs at h with hend
  · exact hend.1
  · exact absurd rfl h

end Context

/-! ### Languages that look back -/

/-- How a language remembers the word before the cursor. -/
structure LookBehind (Word : Type) where
  /-- The state in code, where words are read. -/
  code : State
  /-- The state after a `/`, which may turn out to be a division. -/
  slash : State
  isWordChar : Char → Bool
  word : Context → Word
  empty : Word
  push : Word → Char → Word
  /-- Reads a character of code. -/
  feedCode : Context → Char → Context

namespace LookBehind

variable {Word : Type} {m : LookBehind Word} {ctx : Context} {t : Text} {c : Char}

/-- How a character is read. -/
inductive Reads (m : LookBehind Word) (ctx : Context) (c : Char) : Prop where
  /-- It is read as code, also if that turns a `/` before it into a division. -/
  | asCode (hs : ctx.state = m.code ∨ ctx.state = m.slash) (before : Context)
      (hcode : before.state = m.code) (hword : m.word before = m.word ctx)
      (hfeed : ctx.feed c = m.feedCode before c)
  /-- It belongs to a literal or comment, which may end with it. -/
  | enclosed (hs : ctx.state ≠ m.code)
      (hword : m.word ctx = m.empty → m.word (ctx.feed c) = m.empty)
      (hnext : (ctx.feed c).state = m.code ∨ (ctx.feed c).state = m.slash → m.isWordChar c = false)

/-- What a language has to keep to. -/
structure Lawful (m : LookBehind Word) : Prop where
  entry : m.code.entry = m.code
  reads : ∀ ctx c, ctx.state.entry = m.code → m.Reads ctx c
  word_feedCode : ∀ ctx c, m.word (m.feedCode ctx c)
    = if m.isWordChar c then m.push (m.word ctx) c else m.empty
  state_feedCode : ∀ ctx c, ctx.state = m.code → m.isWordChar c = true →
    (m.feedCode ctx c).state = m.code

/-- What is remembered of the word that a text ends with. -/
def ofText (m : LookBehind Word) (t : Text) : Word :=
  (t.rtakeWhile m.isWordChar).foldl m.push m.empty

theorem ofText_append_singleton (m : LookBehind Word) (t : Text) (c : Char) :
    m.ofText (t ++ [c]) = if m.isWordChar c then m.push (m.ofText t) c else m.empty := by
  rw [ofText, List.rtakeWhile_concat]
  split
  · rw [List.foldl_append, List.foldl_cons, List.foldl_nil, ofText]
  · rfl

/-- What `ctx` remembers after the text `t`. Outside of code there is no word, also right after a
`/`. -/
@[mk_iff]
structure Remembers (m : LookBehind Word) (ctx : Context) (t : Text) : Prop where
  inCode : ctx.state = m.code ∨ ctx.state = m.slash → m.word ctx = m.ofText t
  outside : ctx.state ≠ m.code → m.word ctx = m.empty

theorem Remembers.feed (hm : m.Lawful) (h : m.Remembers ctx t) (hentry : ctx.state.entry = m.code)
    (c : Char) : m.Remembers (ctx.feed c) (t ++ [c]) := by
  rw [remembers_iff, ofText_append_singleton]
  cases hm.reads ctx c hentry with
  | asCode hs before hcode hword hfeed =>
    have hnext : m.word (ctx.feed c)
        = if m.isWordChar c then m.push (m.ofText t) c else m.empty := by
      rw [hfeed, hm.word_feedCode, hword, h.inCode hs]
    refine ⟨fun _ => hnext, fun hleft => ?_⟩
    -- letters do not lead out of code
    have hc : m.isWordChar c = false := by
      refine Bool.eq_false_iff.mpr fun hc => hleft ?_
      rw [hfeed]
      exact hm.state_feedCode before c hcode hc
    rw [hnext, if_neg (by simp [hc])]
  | enclosed hs hword hnext =>
    have hempty := hword (h.outside hs)
    refine ⟨fun hback => ?_, fun _ => hempty⟩
    rw [hempty, if_neg (by simp [hnext hback])]

/-- **What is remembered is the longest run of letters at the end of the text.** -/
theorem remembers_feedAll (hm : m.Lawful) (hs : ctx.state = m.code) (hempty : m.word ctx = m.empty)
    (t : Text) : m.Remembers (ctx.feedAll t) t := by
  induction t using List.reverseRecOn with
  | nil => exact ⟨fun _ => hempty, fun h => absurd hs h⟩
  | append_singleton t c ih =>
    have hentry : (ctx.feedAll t).state.entry = m.code := by
      rw [(Context.samePlace_feedAll ctx t).entry, hs, hm.entry]
    rw [Context.feedAll_append_singleton]
    exact ih.feed hm hentry c

end LookBehind

end SafeMarkup
