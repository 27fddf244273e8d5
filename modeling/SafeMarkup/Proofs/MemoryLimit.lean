import SafeMarkup.Proofs.Runs

/-!
# The memory limit

A call with trusted text fails for want of memory exactly if the text that it asks memory for is
larger than the limit, however much has been held before (`memory_refused_iff`). It asks memory for
what is left undecided, but after held back text for that and for all of the new text, decided or
not (`demand`). So a document may fit the limit as a whole, and its pieces may not.
-/

namespace SafeMarkup

namespace HeldText

variable {held : HeldText}

/-- The account of the memory is right, and the limit has been kept. -/
structure Accounted (held : HeldText) : Prop where
  usage : held.usage = held.reserved
  reserved : held.reserved ≤ held.limit

theorem Accounted.keep (h : held.Accounted) (text : Text) : (held.keep text).Accounted :=
  ⟨h.usage, h.reserved⟩

/-- Text that fits the limit is accepted, however little memory has been reserved for it. -/
theorem Accounted.append (h : held.Accounted) {more : Text}
    (hfits : Text.utf8Size (held.text ++ more) ≤ held.limit) :
    (held.append more).2 = none ∧ (held.append more).1.Accounted
      ∧ (held.append more).1.limit = held.limit := by
  obtain ⟨hok, -, husage, hlimit⟩ := Writer.append_of_fits h.usage hfits
  refine ⟨hok, ⟨husage, ?_⟩, hlimit⟩
  rw [hlimit]
  simp only [HeldText.append]
  split
  · exact h.reserved
  split
  · exact hfits
  · exact h.reserved

/-- Larger text is refused, however much of it is there already. -/
theorem Accounted.append_refused (h : held.Accounted) {more : Text}
    (hlarge : held.limit < Text.utf8Size (held.text ++ more)) :
    (held.append more).2 = some ⟨Text.utf8Size (held.text ++ more), held.limit⟩ := by
  have hreserved := h.reserved
  have husage := h.usage
  -- the request is for the part of the text that there is no memory for yet
  have hsum : held.usage + (Text.utf8Size (held.text ++ more) - held.reserved)
      = Text.utf8Size (held.text ++ more) := by omega
  simp only [HeldText.append]
  rw [if_neg (by omega), hsum, if_neg (by omega)]

end HeldText

namespace Writer

variable {w : Writer} {limit : Nat} {before text : Text} {bytesOf : Char → List UInt8}

/-! ### What memory is asked for -/

/-- What is held back of a document of which all is trusted text so far. -/
def undecided (text : Text) : Text := (Context.advance {} false text).held

/-- What there has to be memory for when a piece is written after a text. After held back text a
piece is kept as a whole until it has been followed. -/
def demand (before text : Text) : Text :=
  if undecided before = [] then undecided (before ++ text) else undecided before ++ text

theorem undecided_append (before text : Text) :
    undecided (before ++ text)
      = ((Context.advance {} false before).context.advance false
          (undecided before ++ text)).held := by
  rw [undecided, Context.advance_append]
  rfl

/-- There is never a demand for less than what is left undecided. -/
theorem exceeds_demand_iff :
    limit < Text.utf8Size (demand before text) ↔
      limit < Text.utf8Size (undecided (before ++ text))
        ∨ undecided before ≠ [] ∧ limit < Text.utf8Size (undecided before ++ text) := by
  unfold demand
  split
  · next hnone => simp [hnone]
  · next hsome =>
    have hsuffix : undecided (before ++ text) <:+ undecided before ++ text := by
      rw [undecided_append]
      exact Context.held_suffix _ _ _
    have hle := Text.utf8Size_le_of_suffix hsuffix
    simp only [ne_eq, hsome, not_false_eq_true, true_and]
    omega

/-! ### Documents in pieces -/

/-- The writer has been given `text`, all of it trusted, and has never been refused memory. -/
structure Given (limit : Nat) (text : Text) (w : Writer) : Prop where
  opened : w.closed = false
  decided : w.decided = (Context.advance {} false text).context
  held : w.held.text = undecided text
  account : w.held.Accounted
  limit : w.held.limit = limit

theorem given_new {settings : Settings} (h : settings.preallocated ≤ settings.memoryLimit)
    (sink : Sink) (serializer : Serializer) :
    Given settings.memoryLimit [] (new settings sink serializer) :=
  ⟨rfl, rfl, rfl, ⟨rfl, h⟩, rfl⟩

theorem Given.demand_eq (h : Given limit before w) (text : Text) :
    w.held.text ++ w.asked text = demand before text := by
  unfold asked demand HeldText.isEmpty
  rw [h.held, h.decided]
  by_cases hnone : undecided before = []
  · rw [if_pos (List.isEmpty_iff.mpr hnone), if_pos hnone, undecided_append, hnone]
    rfl
  · rw [if_neg (fun hempty => hnone (List.isEmpty_iff.mp hempty)), if_neg hnone]

/-- **A call within the limit is accepted.** -/
theorem Given.accepted (h : Given limit before w) {t : Text}
    (hfits : Text.utf8Size (demand before t) ≤ limit) :
    let p := w.decided.advance false (w.held.text ++ t)
    ∃ held : HeldText, held.text = p.held ∧ held.Accounted ∧ held.limit = limit
      ∧ w.writeTrusted t = sendDecided { w.record p.context p.written with held } := by
  rw [← h.demand_eq, ← h.limit] at hfits
  obtain ⟨hok, haccount, hlimit⟩ := h.account.append hfits
  rcases advance_of_append w t with ⟨e, he, -⟩ | ⟨-, hsent⟩
  · rw [hok] at he
    cases he
  · have hkept := haccount.keep (w.decided.advance false (w.held.text ++ t)).held
    rw [writeTrusted_eq h.opened]
    exact ⟨_, rfl, hkept, hlimit.trans h.limit, hsent⟩

/-- It follows its text, whether the sink fails or not. -/
theorem Given.writeTrusted (h : Given limit before w) {t : Text}
    (hfits : Text.utf8Size (demand before t) ≤ limit) :
    (∀ e, (w.writeTrusted t).error ≠ some (.heldTextLimit e))
      ∧ Given limit (before ++ t) (w.writeTrusted t).writer := by
  obtain ⟨held, htext, haccount, hlimit, hsent⟩ := h.accepted hfits
  rw [h.decided, h.held] at htext
  rw [hsent]
  refine ⟨error_sendDecided_ne _, h.opened, ?_, ?_, haccount, hlimit⟩
  · show (w.decided.advance false (w.held.text ++ t)).context = _
    rw [h.decided, h.held, Context.advance_append {} false before t]
    rfl
  · rw [undecided_append]
    exact htext

/-- With a reliable sink nothing else can fail. -/
theorem Given.error_eq_none (h : Given limit before w) (hs : Steady bytesOf w) {t : Text}
    (hfits : Text.utf8Size (demand before t) ≤ limit) :
    (w.writeTrusted t).error = none ∧ Steady bytesOf (w.writeTrusted t).writer := by
  obtain ⟨held, htext, haccount, hlimit, hsent⟩ := h.accepted hfits
  obtain ⟨hok, -, hs'⟩ :=
    followed_of_sendDecided hs htext haccount.usage (hlimit.trans h.limit.symm)
  rw [hsent]
  exact ⟨hok, hs'⟩

/-- **Any other call is refused**, with a reason that says how much memory it asked for. -/
theorem Given.refused (h : Given limit before w) {t : Text}
    (hlarge : limit < Text.utf8Size (demand before t)) :
    (w.writeTrusted t).error
      = some (.heldTextLimit ⟨Text.utf8Size (demand before t), limit⟩) := by
  rw [writeTrusted_eq h.opened]
  rw [← h.demand_eq, ← h.limit] at hlarge ⊢
  have hrefused := h.account.append_refused hlarge
  rcases advance_of_append w t with ⟨e, he, hadvance⟩ | ⟨hok, -⟩
  · rw [hadvance, ← Option.some.inj (he.symm.trans hrefused)]
  · rw [hrefused] at hok
    cases hok

/-- A further text is refused if and only if its demand is above the limit. -/
theorem Given.refused_iff (h : Given limit before w) (t : Text) :
    (∃ e, (w.writeTrusted t).error = some (.heldTextLimit e))
      ↔ limit < Text.utf8Size (demand before t) := by
  constructor
  · rintro ⟨e, he⟩
    by_contra hfits
    exact (h.writeTrusted (Nat.not_lt.mp hfits)).1 e he
  · exact fun hlarge => ⟨_, h.refused hlarge⟩

/-- The demand of a text that is taken keeps the limit. -/
theorem Given.fits_of_ok (h : Given limit before w) {t : Text}
    (hok : (w.writeTrusted t).error = none) : Text.utf8Size (demand before t) ≤ limit := by
  by_contra hlarge
  rw [h.refused (Nat.not_le.mp hlarge)] at hok
  cases hok

/-- A run with trusted text that does not fail follows the text. -/
theorem Given.run (h : Given limit before w) {pieces : List Text}
    (hok : (w.run (pieces.map .writeTrusted)).error = none) :
    Given limit (before ++ pieces.flatten) (w.run (pieces.map .writeTrusted)).writer := by
  induction pieces generalizing w before with
  | nil =>
    rw [List.flatten_nil, List.append_nil]
    exact h
  | cons t pieces ih =>
    rw [List.map_cons, Writer.run] at hok ⊢
    obtain ⟨hfirst, hrest⟩ := Outcome.error_andThen.mp hok
    rw [Outcome.andThen_ok hfirst, List.flatten_cons, ← List.append_assoc]
    exact ih (h.writeTrusted (h.fits_of_ok hfirst)).2 hrest

/-- **A run with trusted text fails if and only if one of its calls asks for too much memory.** -/
theorem Given.run_eq_none_iff (h : Given limit before w) (hs : Steady bytesOf w)
    (pieces : List Text) :
    (w.run (pieces.map .writeTrusted)).error = none ↔
      ∀ earlier t later, pieces = earlier ++ t :: later →
        Text.utf8Size (demand (before ++ earlier.flatten) t) ≤ limit := by
  -- on the pieces: the first one is taken or not, and the rest starts after it
  induction pieces generalizing w before with
  | nil => simp [Writer.run]
  | cons t pieces ih =>
    rw [List.map_cons, Writer.run, Outcome.error_andThen]
    show (w.writeTrusted t).error = none ∧ _ ↔ _
    constructor
    · rintro ⟨hfirst, hrest⟩ earlier t' later hsplit
      have hfits := h.fits_of_ok hfirst
      -- the piece in question is the first one or one of the rest
      rcases List.cons_eq_append_iff.mp hsplit with ⟨rfl, hcons⟩ | ⟨earlier', rfl, hpieces⟩
      · cases hcons
        rwa [List.flatten_nil, List.append_nil]
      · have hnext := ih (h.writeTrusted hfits).2 (h.error_eq_none hs hfits).2
        rw [List.flatten_cons, ← List.append_assoc]
        exact hnext.mp hrest earlier' t' later hpieces
    · intro hall
      have hfits : Text.utf8Size (demand before t) ≤ limit := by
        simpa using hall [] t pieces rfl
      obtain ⟨hfirst, hs'⟩ := h.error_eq_none hs hfits
      refine ⟨hfirst, (ih (h.writeTrusted hfits).2 hs').mpr fun earlier t' later hsplit => ?_⟩
      rw [List.append_assoc, ← List.flatten_cons]
      exact hall (t :: earlier) t' later (by rw [hsplit, List.cons_append])

/-- **When trusted text is refused.** After a run with trusted text a further piece is refused if
and only if more than the limit is left undecided, which does not depend on how the text has been
cut, or if something is held back that makes more than the limit together with the whole piece. So
of a document in pieces, sent to a reliable sink, no piece is refused if and only if the demand of
every piece keeps the limit. -/
theorem memory_refused_iff (settings : Settings) (sink : Sink) (serializer : Serializer)
    (pieces : List Text) (hlimit : settings.preallocated ≤ settings.memoryLimit) :
    let outcome := (new settings sink serializer).run (pieces.map .writeTrusted)
    (outcome.error = none → ∀ t,
        let w := outcome.writer
        let left := (w.decided.advance false (w.held.text ++ t)).held
        left = undecided (pieces.flatten ++ t)
          ∧ ((∃ e, (w.writeTrusted t).error = some (.heldTextLimit e)) ↔
              settings.memoryLimit < Text.utf8Size left
                ∨ w.held.text ≠ [] ∧ settings.memoryLimit < Text.utf8Size (w.held.text ++ t))
          ∧ ∀ e, (w.writeTrusted t).error = some (.heldTextLimit e) →
              e = ⟨Text.utf8Size (demand pieces.flatten t), settings.memoryLimit⟩)
      ∧ (sink.IsReliable → ∀ bytesOf, settings.charset.Encodes bytesOf →
          (outcome.error = none ↔ ∀ earlier t later, pieces = earlier ++ t :: later →
            Text.utf8Size (demand earlier.flatten t) ≤ settings.memoryLimit)) := by
  have hnew := given_new hlimit sink serializer
  refine ⟨fun hok t => ?_, fun hreliable bytesOf hcoded => ?_⟩
  · intro w left
    have hgiven := hnew.run hok
    rw [List.nil_append] at hgiven
    -- the place is that of the whole text, however it has been cut
    have hleft : left = undecided (pieces.flatten ++ t) := by
      rw [undecided_append, ← hgiven.decided, ← hgiven.held]
    refine ⟨hleft, ?_, fun e he => ?_⟩
    · rw [hgiven.refused_iff, exceeds_demand_iff, hleft, hgiven.held]
    · have hrefused := hgiven.refused ((hgiven.refused_iff t).mp ⟨e, he⟩)
      exact WriterError.heldTextLimit.inj (Option.some.inj (he.symm.trans hrefused))
  · exact hnew.run_eq_none_iff ⟨hreliable, hcoded, rfl⟩ pieces

/-- With a limit of eight bytes the start of a tag fits, and the whole tag after its `<` does not.
It fits in pieces that are cut elsewhere. -/
theorem held_tag_fits :
    let settings : Settings := { preallocated := 0, memoryLimit := 8 }
    let sink : Sink := { failure? := fun _ _ => none }
    let w := ((new settings sink).run (["<".toList].map .writeTrusted)).writer
    let tag := ["<a ".toList, "title=".toList, "x>".toList]
    ¬(∃ e, (w.writeTrusted "a hre".toList).error = some (.heldTextLimit e))
      ∧ (∃ e, (w.writeTrusted "a title=x>".toList).error = some (.heldTextLimit e))
      ∧ ((new settings sink).run (tag.map .writeTrusted)).error = none
      ∧ Text.utf8Size (demand "<a ".toList "title=".toList) ≤ 8 := by
  intro settings sink w tag
  have hlimit : settings.preallocated ≤ settings.memoryLimit := by decide
  have hok : ((new settings sink).run (["<".toList].map .writeTrusted)).error = none := by
    decide +kernel
  have htag : ((new settings sink).run (tag.map .writeTrusted)).error = none := by decide +kernel
  have hcut := (memory_refused_iff settings sink .default ["<".toList] hlimit).1 hok
  obtain ⟨-, hfits, -⟩ := hcut "a hre".toList
  obtain ⟨-, hlarge, -⟩ := hcut "a title=x>".toList
  refine ⟨fun hrefused => absurd (hfits.mp hrefused) ?_, hlarge.mpr ?_, htag, ?_⟩
  · decide +kernel
  · decide +kernel
  · have hall := (memory_refused_iff settings sink .default tag hlimit).2 (fun _ _ => rfl) _ .utf8
    exact hall.mp htag ["<a ".toList] "title=".toList ["x>".toList] rfl

/-- A start tag that is accepted as a whole is refused after its `<`, and nothing of it would be
left undecided. -/
theorem cut_tag_is_refused :
    let w := new { preallocated := 0, memoryLimit := 8 } { failure? := fun _ _ => none }
    let cut := (w.writeTrusted "<".toList).writer
    (w.writeTrusted "<a title=x>".toList).error = none
      ∧ (w.writeTrusted "<".toList).error = none
      ∧ (cut.decided.advance false (cut.held.text ++ "a title=x>".toList)).held = []
      ∧ (cut.writeTrusted "a title=x>".toList).error = some (.heldTextLimit ⟨11, 8⟩) := by
  decide +kernel

end Writer

end SafeMarkup
