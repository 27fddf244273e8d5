import SafeMarkup.Html.CharRef.Decode
import SafeMarkup.Proofs.ByteEscaping

/-!
# Escaping and decoding

Decoding an escaped text gives back the text before it was escaped. Two facts carry this. A
character is escaped as itself or as a complete reference to it (`escapedAs`), and such a reference
is decoded whatever follows it (`decode_append`). In soft mode references of the text are kept, next
to references that escaping adds, and what an `&` turns out to be stays the same (`scan_escape`).
-/

namespace SafeMarkup.Html

namespace CharRef

variable {rest : Text} {length : Nat} {char : Char}

/-! ### What references refer to -/

/-- No reference refers to NUL: the number zero stands for U+FFFD. -/
theorem ofCodePoint_ne_nul (code : Nat) : ofCodePoint code ≠ '\x00' := by
  unfold ofCodePoint
  split
  · next h =>
    intro hnul
    have hcode : (Char.ofNat code).toNat = code := by
      rw [Char.ofNat, dif_pos h.2]
      rfl
    rw [hnul] at hcode
    exact h.1 hcode.symm
  · decide

/-- No name stands for NUL. -/
theorem lookup?_ne_nul {name : Text} (h : lookup? name = some char) : char ≠ '\x00' := by
  have hall : named.all (fun entry => entry.2 != '\x00') = true := by decide +kernel
  rw [lookup?, Option.map_eq_some_iff] at h
  obtain ⟨entry, hfind, rfl⟩ := h
  have hentry := List.all_eq_true.mp hall entry (List.mem_of_find?_eq_some hfind)
  simpa using hentry

/-- No numeric reference is read as NUL, since zero is replaced. -/
theorem scanNumber_ne_nul {last : Bool} {radix opening : Nat} {isDigit : Char → Bool}
    (h : scanNumber last radix opening isDigit rest = .complete length char) :
    char ≠ '\x00' := by
  unfold scanNumber at h
  dsimp only at h
  split at h
  · cases h
  split at h
  · cases h
  · cases h
    exact ofCodePoint_ne_nul _

/-- No named reference is read as NUL. -/
theorem scanName_ne_nul {last : Bool} (h : scanName last rest = .complete length char) :
    char ≠ '\x00' := by
  unfold scanName at h
  dsimp only at h
  split at h
  · cases h
  split at h
  · cases h
  next c hname =>
    split at h
    · cases h
    · cases h
      exact lookup?_ne_nul hname

/-- No reference is read as NUL. -/
theorem scan_ne_nul {last : Bool} (h : scan last rest = .complete length char) :
    char ≠ '\x00' := by
  unfold scan at h
  split at h
  · exact scanNumber_ne_nul h
  · exact scanNumber_ne_nul h
  · exact scanNumber_ne_nul h
  · exact scanName_ne_nul h

/-! ### Decoding piece by piece -/

/-- To prove something of the decoding of all texts it is enough to follow it from one `&` to the
next. -/
@[elab_as_elim]
theorem decode_induction {motive : Text → Prop}
    (nil : motive [])
    (plain : ∀ c rest, c ≠ '&' → motive rest → motive (c :: rest))
    (reference : ∀ rest length char, scan true rest = .complete length char →
      motive (rest.drop (length - 1)) → motive ('&' :: rest))
    (amp : ∀ rest, startsRef rest = false → motive rest → motive ('&' :: rest)) (t : Text) :
    motive t := by
  -- a reference is left behind as a whole
  induction hn : t.length using Nat.strong_induction_on generalizing t with
  | _ n ih =>
    rcases t with _ | ⟨c, rest⟩
    · exact nil
    rw [List.length_cons] at hn
    have hrest : motive rest := ih rest.length (by omega) rest rfl
    by_cases hc : c = '&'
    · subst hc
      cases hscan : scan true rest with
      | complete length char =>
        have hlen : (rest.drop (length - 1)).length < n := by
          rw [List.length_drop]
          omega
        exact reference rest length char hscan (ih _ hlen _ rfl)
      | incomplete => exact absurd hscan (scan_last rest)
      | absent => exact amp rest (by simp [startsRef, hscan]) hrest
    · exact plain c rest hc hrest

/-- Text without an `&` is decoded as it is. -/
theorem decode_append_of_notMem {a : Text} (ha : '&' ∉ a) (b : Text) :
    decode (a ++ b) = a ++ decode b := by
  induction a with
  | nil => rfl
  | cons c a ih =>
    rw [List.mem_cons, not_or] at ha
    rw [List.cons_append, decode_cons (Ne.symm ha.1), ih ha.2]
    rfl

/-- **A reference that is complete** without what follows it is decoded by itself. -/
theorem decode_append {t : Text} (h : scan false t = .complete (t.length + 1) char) (b : Text) :
    decode ('&' :: t ++ b) = char :: decode b := by
  have hscan : scan true (t ++ b) = .complete (t.length + 1) char := by
    rw [scan_append (by simp [h]), h]
  rw [List.cons_append, decode_complete hscan, Nat.add_sub_cancel, List.drop_left]

/-- The reference that takes the place of an `&`. -/
theorem scan_amp : scan false "amp;".toList = .complete ("amp;".toList.length + 1) '&' := by
  decide +kernel

theorem decode_amp_append (b : Text) : decode ("&amp;".toList ++ b) = '&' :: decode b :=
  decode_append scan_amp b

theorem startsRef_append {t : Text} (h : scan false t = .complete (t.length + 1) char) (b : Text) :
    startsRef (t ++ b) = true := by
  rw [startsRef, scan_append (by simp [h]), h]

end CharRef

open CharRef

variable {quoting : Quoting} {soft : Bool} {c : Char}

theorem decoded_of_ne_nul (hc : c ≠ '\x00') : Context.decoded c = c := by
  rw [Context.decoded, if_neg hc]

/-- An escaped character is read as the character, whatever follows. -/
theorem decode_escapeChar (hc : c ≠ '&') (b : Text) :
    decode (escapeChar quoting c ++ b) = Context.decoded c :: decode b := by
  cases escapedAs quoting c with
  | self h => rw [h, List.singleton_append, decode_cons (decoded_ne_amp hc)]
  | reference t h _ hscan =>
    rw [h, decode_append hscan, decoded_of_ne_nul (scan_ne_nul hscan)]

/-! ### Escaped texts -/

/-- **Decoding undoes escaping.** -/
theorem decode_escape (quoting : Quoting) (s : Text) :
    decode (escape quoting false s) = s.map Context.decoded := by
  induction s with
  | nil => rfl
  | cons c s ih =>
    by_cases hc : c = '&'
    · subst hc
      rw [escape_amp_replaced (Bool.false_and _), decode_amp_append, ih]
      rfl
    · rw [escape_cons_of_ne hc, decode_escapeChar hc, ih]
      rfl

/-- **Soft escaping keeps the meaning** that a text has with its references. -/
theorem decode_escape_soft (quoting : Quoting) (s : Text) :
    decode (escape quoting true s) = (decode s).map Context.decoded := by
  -- along the references that are read, since they are kept
  induction s using decode_induction with
  | nil => rfl
  | plain c rest hc ih =>
    rw [escape_cons_of_ne hc, decode_escapeChar hc, decode_cons hc, ih]
    rfl
  | reference rest length char hscan ih =>
    have hscan' : scan true (escape quoting true rest) = .complete length char := by
      rw [scan_escape, hscan]
    rw [escape_amp_kept hscan, decode_complete hscan', drop_escape hscan, ih,
      decode_complete hscan, List.map_cons, decoded_of_ne_nul (scan_ne_nul hscan)]
  | amp rest hnone ih =>
    rw [escape_amp_replaced (by simpa using hnone), decode_amp_append, decode_amp hnone, ih]
    rfl

/-- What comes after a text without an `&`. -/
theorem amp_suffix_of_append {a b rest : Text} (ha : '&' ∉ a) (h : '&' :: rest <:+ a ++ b) :
    '&' :: rest <:+ b := by
  induction a with
  | nil => exact h
  | cons c a ih =>
    rw [List.mem_cons, not_or] at ha
    rcases List.suffix_cons_iff.mp h with heq | hsuffix
    · exact absurd (List.cons.inj heq).1 ha.1
    · exact ih ha.2 hsuffix

/-- A complete reference before the text is one more `&` that starts a reference. -/
theorem startsRef_of_append {t b rest : Text} {char : Char} (ht : '&' ∉ t)
    (hscan : scan false t = .complete (t.length + 1) char)
    (hb : '&' :: rest <:+ b → startsRef rest = true) (h : '&' :: rest <:+ '&' :: t ++ b) :
    startsRef rest = true := by
  rcases List.suffix_cons_iff.mp h with heq | hsuffix
  · rw [(List.cons.inj heq).2]
    exact startsRef_append hscan b
  · exact hb (amp_suffix_of_append ht hsuffix)

/-- **Every `&` of an escaped text starts a reference.** -/
theorem startsRef_of_suffix_escape {s rest : Text} (h : '&' :: rest <:+ escape quoting soft s) :
    startsRef rest = true := by
  induction s with
  | nil => exact absurd (List.suffix_nil.mp h) (List.cons_ne_nil _ _)
  | cons c s ih =>
    by_cases hc : c = '&'
    · subst hc
      rw [escape, if_pos rfl] at h
      split at h
      · -- the `&` was kept because a reference starts there
        next hkept =>
        rcases List.suffix_cons_iff.mp h with heq | hsuffix
        · rw [(List.cons.inj heq).2, startsRef_escape]
          exact (Bool.and_eq_true_iff.mp hkept).2
        · exact ih hsuffix
      · exact startsRef_of_append (by decide) scan_amp ih h
    · rw [escape_cons_of_ne hc] at h
      -- an escaped character has one `&` at most, at its start
      cases escapedAs quoting c with
      | self hchar =>
        rw [hchar] at h
        have hself : '&' ∉ [Context.decoded c] := by
          rw [List.mem_singleton]
          exact Ne.symm (decoded_ne_amp hc)
        exact ih (amp_suffix_of_append hself h)
      | reference t hchar ht hscan =>
        rw [hchar] at h
        exact startsRef_of_append ht hscan ih h

/-- A text is left alone by soft escaping if it is harmless and all its references are complete. -/
theorem escape_soft_eq_self {t : Text} (hharmless : ∀ c ∈ t, isHarmless quoting c = true)
    (hrefs : ∀ rest, '&' :: rest <:+ t → startsRef rest = true) : escape quoting true t = t := by
  induction t with
  | nil => rfl
  | cons c t ih =>
    obtain ⟨hc, ht⟩ := List.forall_mem_cons.mp hharmless
    -- the references of the rest are references of the whole
    have hself := ih ht fun rest hrest => hrefs rest (hrest.trans (List.suffix_cons c t))
    by_cases hamp : c = '&'
    · subst hamp
      have hstarts : startsRef t = true := hrefs t (List.suffix_refl _)
      simp [escape, hstarts, hself]
    · rw [escape_cons_of_ne hamp, escapeChar_of_isHarmless hc, hself]
      rfl

/-- **Escaping is undone by decoding, and soft escaping keeps the meaning of a text.** Escaping a
text byte by byte writes what escaping its characters one by one does. An escaped text decodes to
the text itself, a softly escaped one to what the text decodes to; in both a NUL is read as U+FFFD.
Escaped text has no character with a meaning in markup, or in an unquoted value if it is for one,
and every `&` in it starts a reference. So softly escaping it once more changes nothing. -/
theorem escaping_is_undone (quoting : Quoting) (s : Text) :
    (∀ soft, Bytes.escape quoting soft s = some (escape quoting soft s))
      ∧ decode (escape quoting false s) = s.map Context.decoded
      ∧ decode (escape quoting true s) = (decode s).map Context.decoded
      ∧ ∀ soft : Bool,
        (∀ c ∈ escape quoting soft s, isHarmless quoting c = true)
          ∧ (∀ rest, '&' :: rest <:+ escape quoting soft s → startsRef rest = true)
          ∧ escape quoting true (escape quoting soft s) = escape quoting soft s := by
  refine ⟨fun soft => Bytes.escape_eq quoting soft s, decode_escape quoting s,
    decode_escape_soft quoting s, fun soft => ?_⟩
  have hharmless : ∀ c ∈ escape quoting soft s, isHarmless quoting c = true :=
    fun c hc => isHarmless_of_mem_escape hc
  have hrefs : ∀ rest, '&' :: rest <:+ escape quoting soft s → startsRef rest = true :=
    fun rest hrest => startsRef_of_suffix_escape hrest
  exact ⟨hharmless, hrefs, escape_soft_eq_self hharmless hrefs⟩

/-- Kept references next to added ones: one without a `;` before an `=`, one before a NUL. -/
theorem kept_references_are_undone :
    Bytes.escape .unquoted true "&lt=&#39\x00&no;".toList
        = some "&lt&#61;&#39\ufffd&amp;no;".toList
      ∧ decode "&lt&#61;&#39\ufffd&amp;no;".toList = "<='\ufffd&no;".toList
      ∧ startsRef "lt&#61;&#39\ufffd&amp;no;".toList = true
      ∧ isHarmless .unquoted '\ufffd' = true := by
  have hescape : escape .unquoted true "&lt=&#39\x00&no;".toList
      = "&lt&#61;&#39\ufffd&amp;no;".toList := by decide +kernel
  obtain ⟨hbytes, -, hsoft, hall⟩ := escaping_is_undone .unquoted "&lt=&#39\x00&no;".toList
  have hloop := hbytes true
  obtain ⟨hharmless, hrefs, -⟩ := hall true
  rw [hescape] at hloop hsoft hharmless hrefs
  have hfirst : '&' :: "lt&#61;&#39\ufffd&amp;no;".toList <:+ "&lt&#61;&#39\ufffd&amp;no;".toList :=
    ⟨[], by decide +kernel⟩
  exact ⟨hloop, hsoft.trans (by decide +kernel), hrefs _ hfirst, hharmless _ (by decide)⟩

end SafeMarkup.Html
