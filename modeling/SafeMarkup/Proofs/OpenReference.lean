import SafeMarkup.Proofs.Decoding
import SafeMarkup.Proofs.Reachable
import SafeMarkup.Proofs.Replacement

/-!
# What a value cannot do to an open reference

Trusted text may end in a reference that is still open, as in `<a title='&am`. It is completed
before an untrusted value is written, and from there on the value stands alone: what a browser
decodes is the open reference, read as if the text had ended there, and then the value. A completed
reference is read by itself whatever comes next (`decode_append`), and this is the only thing that
could have joined the two.
-/

namespace SafeMarkup

namespace Context

open Html.CharRef

variable {ctx : Context} {rest : Text}

/-- **What is written for an open reference** decodes to what the reference decodes to, and what
follows is decoded by itself. -/
theorem decode_terminateCharRef (hin : ctx.inAttrValue = true)
    (hopen : scan false rest = .incomplete) (e : Text) :
    decode ((ctx.terminateCharRef ('&' :: rest)).2 ++ e) = decode ('&' :: rest) ++ decode e := by
  obtain ⟨delim, hdelim⟩ := Option.isSome_iff_exists.mp hin
  obtain ⟨hrun, hcomplete⟩ := scan_incomplete hopen
  cases hscan : scan true rest with
  | incomplete => exact absurd hscan (scan_last rest)
  | complete length char =>
    -- the whole text is the reference, and it gets the `;` that it lacks
    obtain ⟨hlen, hclosed⟩ := hcomplete length char hscan
    have hclosed' : scan false (rest ++ [';']) = .complete ((rest ++ [';']).length + 1) char := by
      rw [hclosed false [], hlen, List.length_append, List.length_singleton, Nat.add_comm 1]
    have hall : rest.drop (length - 1) = [] := List.drop_of_length_le (by omega)
    rw [terminateCharRef_complete hin hrun hscan hlen]
    show decode ('&' :: (rest ++ [';']) ++ e) = _
    rw [decode_append hclosed' e, decode_complete hscan, hall]
    rfl
  | absent =>
    -- what follows the `&` holds no second one
    have hplain : ∀ c ∈ rest, delim.isPlain c = true :=
      fun c hc => delim.isPlain_of_isRefChar (hrun c hc)
    have hamp : '&' ∉ rest := fun hmem => absurd (hrun _ hmem) (by decide)
    have hself : decode rest = rest := by
      rw [← List.append_nil rest, decode_append_of_notMem hamp, decode_nil]
    have hnone : startsRef rest = false := by simp [startsRef, hscan]
    rw [terminateCharRef_absent hdelim hplain hscan]
    show decode ("&amp;".toList ++ rest ++ e) = _
    rw [List.append_assoc, decode_amp_append, decode_append_of_notMem hamp, decode_amp hnone, hself]
    rfl

/-- An open reference does not end the value it stands in. -/
theorem samePlace_terminateCharRef (hin : ctx.inAttrValue = true)
    (hopen : scan false rest = .incomplete) :
    ctx.SamePlace (ctx.terminateCharRef ('&' :: rest)).1 := by
  obtain ⟨delim, hdelim⟩ := Option.isSome_iff_exists.mp hin
  obtain ⟨hrun, hcomplete⟩ := scan_incomplete hopen
  cases hscan : scan true rest with
  | incomplete => exact absurd hscan (scan_last rest)
  | complete length char =>
    rw [terminateCharRef_complete hin hrun hscan (hcomplete length char hscan).1]
    exact samePlace_feed ctx char
  | absent =>
    have hplain : ∀ c ∈ rest, delim.isPlain c = true :=
      fun c hc => delim.isPlain_of_isRefChar (hrun c hc)
    rw [terminateCharRef_absent hdelim hplain hscan]
    exact (samePlace_feed ctx '&').trans (samePlace_feedAll _ rest)

/-- **A value neither completes nor extends a reference that trusted text has left open.** The open
reference leads to the context in which the end of the text would have been, in the same value of
the same attribute. Whatever text follows what is written for it, a browser decodes the reference as
if it had been the end of the text, and the rest by itself. The context is that of the end of the
text for everything else that can be held back too. -/
theorem open_reference_stands_alone (ctx : Context) :
    (∀ held, (ctx.terminateCharRef held).1 = (ctx.advance true held).context)
      ∧ (ctx.inAttrValue = true → ∀ rest, scan false rest = .incomplete →
        ctx.SamePlace (ctx.terminateCharRef ('&' :: rest)).1
          ∧ ∀ e, decode ((ctx.terminateCharRef ('&' :: rest)).2 ++ e)
            = decode ('&' :: rest) ++ decode e) :=
  ⟨fun held => terminateCharRef_context ctx held, fun hin _ hopen =>
    ⟨samePlace_terminateCharRef hin hopen, decode_terminateCharRef hin hopen⟩⟩

/-- In a title that ends in `&amp`, the value `lt;` is not read as a part of `&amplt;`. -/
theorem value_stands_beside_amp :
    let ctx := (({} : Context).advance true "<a title='".toList).context
    ctx.inAttrValue = true
      ∧ scan false "amp".toList = .incomplete
      ∧ (ctx.terminateCharRef "&amp".toList).1.delim = some .singleQuote
      ∧ (ctx.terminateCharRef "&amp".toList).2 = "&amp;".toList
      ∧ decode ("&amp;".toList ++ "lt;".toList) = "&lt;".toList := by
  have hin : (({} : Context).advance true "<a title='".toList).context.inAttrValue = true := by
    decide
  have hopen : scan false "amp".toList = .incomplete := by decide
  have hwritten : ((({} : Context).advance true "<a title='".toList).context.terminateCharRef
      "&amp".toList).2 = "&amp;".toList := by decide
  obtain ⟨hplace, hdecode⟩ := (open_reference_stands_alone _).2 hin "amp".toList hopen
  have hvalue := hdecode "lt;".toList
  refine ⟨hin, hopen, hplace.delim.trans (by decide), hwritten, ?_⟩
  rw [← hwritten]
  exact hvalue.trans (by decide)

end Context

end SafeMarkup
