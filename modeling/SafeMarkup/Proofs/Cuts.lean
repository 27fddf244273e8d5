import Mathlib.Data.List.Forall2
import SafeMarkup.Proofs.Runs

/-!
# Trusted text may be cut anywhere

The pieces of a trusted text lead to where the text as a whole leads (`followed_of_pieces`). All
that a call depends on is the same for two writers that `Agree`, so they still agree after it, and
after whole runs of which one has its trusted texts cut into pieces (`agree_of_cut`).
-/

namespace SafeMarkup

namespace Writer

variable {w v : Writer} {text : Text} {bytesOf : Char → List UInt8}

/-! ### The pieces of a text -/

/-- A text that has been followed leaves a valid writer. -/
theorem Followed.valid {next : Writer} (h : Valid w) {t : Text}
    (hf : Followed bytesOf w (w.decided.advance false t) next) : Valid next := by
  refine ⟨?_, ?_⟩
  · rw [hf.decided]
    exact h.wellFormed.advance false t
  · rw [hf.decided, hf.held]
    rcases w.decided.held_of_advance false t with hnone | ⟨-, hu⟩
    · exact Or.inl hnone
    · exact Or.inr hu

/-- Nothing comes of following what is held back. -/
theorem Valid.advance_held (h : Valid w) :
    w.decided.advance false w.held.text = ⟨w.decided, [], w.held.text⟩ := by
  rcases h.held with hnone | hu
  · rw [hnone]
    rfl
  · exact hu.advance

theorem Followed.closed {p : Progress} {next : Writer} (h : Followed bytesOf w p next) :
    next.closed = w.closed := by
  have := congrArg (·.2.2.2.1) h.options
  exact this

theorem Followed.limit {p : Progress} {next : Writer} (h : Followed bytesOf w p next) :
    next.held.limit = w.held.limit := by
  have := congrArg (·.2.2.2.2.2) h.options
  exact this

/-- One text after the other is followed as a whole. -/
theorem Followed.trans {p q : Progress} {next last : Writer} (h : Followed bytesOf w p next)
    (h' : Followed bytesOf next q last) : Followed bytesOf w (q.after p.written) last where
  decided := h'.decided
  held := h'.held
  unsent := h'.unsent
  sent := by
    rw [h'.sent, h.sent, h.unsent, List.nil_append, List.append_assoc, ← List.flatMap_append,
      List.append_assoc]
    rfl
  options := h'.options.trans h.options

/-- **The pieces of a text lead to where the text leads.** -/
theorem followed_of_pieces (hv : Valid w) (hs : Steady bytesOf w) (hopen : w.closed = false)
    (hunsent : w.unsent = []) (pieces : List Text) (hfits : w.Fits pieces.flatten) :
    (w.run (pieces.map .writeTrusted)).error = none
      ∧ Followed bytesOf w (w.decided.advance false (w.held.text ++ pieces.flatten))
        (w.run (pieces.map .writeTrusted)).writer
      ∧ Steady bytesOf (w.run (pieces.map .writeTrusted)).writer := by
  induction pieces generalizing w with
  | nil =>
    rw [List.flatten_nil, List.append_nil, hv.advance_held]
    exact ⟨rfl, ⟨rfl, rfl, hunsent, by simp [hunsent, run], rfl⟩, hs⟩
  | cons t pieces ih =>
    rw [List.flatten_cons, Fits, ← List.append_assoc, Text.utf8Size_append] at hfits
    rw [List.flatten_cons, ← List.append_assoc, Context.advance_append]
    have hfirst : w.Fits t := Nat.le_trans (Nat.le_add_right _ _) hfits
    obtain ⟨hok, hnext, hs'⟩ := followed_of_fits hs hfirst
    have hcall : w.perform (.writeTrusted t) = w.advance t := writeTrusted_eq hopen t
    rw [List.map_cons, run, hcall, Outcome.andThen_ok hok]
    generalize (w.advance t).writer = next at *
    -- what is held back after the first piece is an end of the text so far
    have hsuffix := Text.utf8Size_le_of_suffix (w.decided.held_suffix false (w.held.text ++ t))
    have hfits' : next.Fits pieces.flatten := by
      rw [Fits, hnext.held, hnext.limit, Text.utf8Size_append]
      omega
    obtain ⟨hok', hlast, hs''⟩ :=
      ih (hnext.valid hv) hs' (hnext.closed.trans hopen) hnext.unsent hfits'
    rw [hnext.decided, hnext.held] at hlast
    exact ⟨hok', hnext.trans hlast, hs''⟩

/-! ### Writers that agree -/

/-- The two writers differ in nothing but in how the sink and the memory have been used. -/
structure Agree (w v : Writer) : Prop where
  decided : v.decided = w.decided
  held : v.held.text = w.held.text
  unsent : v.unsent = w.unsent
  sent : v.sent = w.sent
  options : v.options = w.options

theorem Agree.context (h : Agree w v) : v.context = w.context := by
  rw [Writer.context, h.decided, h.held, Writer.context]

theorem Agree.closed (h : Agree w v) : v.closed = w.closed :=
  congrArg (·.2.2.2.1) h.options

theorem Agree.fits (h : Agree w v) (hfits : w.Fits text) : v.Fits text := by
  have hlimit : v.held.limit = w.held.limit := congrArg (·.2.2.2.2.2) h.options
  rw [Fits, h.held, hlimit]
  exact hfits

theorem Agree.of_followed {p : Progress} {w' v' : Writer} (h : Agree w v)
    (hw : Followed bytesOf w p w') (hv : Followed bytesOf v p v') : Agree w' v' where
  decided := hv.decided.trans hw.decided.symm
  held := hv.held.trans hw.held.symm
  unsent := hv.unsent.trans hw.unsent.symm
  sent := by rw [hv.sent, hw.sent, h.sent, h.unsent]
  options := hv.options.trans (h.options.trans hw.options.symm)

/-- Both decide on what they hold back. -/
theorem Agree.record (h : Agree w v) (next : Context) (written : Text) :
    Agree { w.record next written with held := w.held.clear }
      { v.record next written with held := v.held.clear } where
  decided := rfl
  held := rfl
  unsent := congrArg (· ++ written) h.unsent
  sent := h.sent
  options := h.options

theorem Agree.ready (h : Agree w v) : Agree w.ready v.ready := by
  have hterm : Agree w.terminateCharRef v.terminateCharRef := by
    have hempty : v.held.isEmpty = w.held.isEmpty := congrArg List.isEmpty h.held
    rw [terminateCharRef, terminateCharRef, h.decided, h.held, hempty]
    split
    · exact h.record _ _
    · exact h
  rw [Writer.ready, Writer.ready, beginValue, beginValue, hterm.context]
  split
  · have hresolved : Agree w.terminateCharRef.resolveHeld v.terminateCharRef.resolveHeld := by
      rw [resolveHeld, resolveHeld, hterm.decided, hterm.held]
      exact hterm.record _ _
    dsimp only
    rw [hresolved.decided]
    exact ⟨rfl, hresolved.held, congrArg (· ++ _) hresolved.unsent, hresolved.sent,
      hresolved.options⟩
  · exact hterm

/-- A value is escaped in the same way by both. -/
theorem Agree.escapeValue (h : Agree w v) (value : Value) :
    v.escapeValue value = w.escapeValue value := by
  have hserializer : v.serializer = w.serializer := congrArg (·.1) h.options
  have hsoft : v.soft = w.soft := congrArg (·.2.1) h.options
  have hschemes : v.schemes = w.schemes := congrArg (·.2.2.1) h.options
  have hname : v.nameStart = w.nameStart := by rw [nameStart, nameStart, h.context, h.held]
  rw [Writer.escapeValue, Writer.escapeValue, h.context, hserializer, hsoft, hschemes, hname]

/-- What comes before a value needs no call that could fail. -/
theorem Steady.ready (h : Steady bytesOf w) : Steady bytesOf w.ready := by
  have hterm : Steady bytesOf w.terminateCharRef := by
    rw [terminateCharRef]
    split
    · exact ⟨h.sink, h.coded, h.account⟩
    · exact h
  rw [Writer.ready, beginValue]
  split
  · exact ⟨hterm.sink, hterm.coded, hterm.account⟩
  · exact hterm

/-! ### Calls that are cut -/

/-- `pieces` are the calls that a call has been cut into. Only trusted text can be cut. -/
inductive Cut : Call → List Call → Prop where
  | writeTrusted (pieces : List Text) :
      Cut (.writeTrusted pieces.flatten) (pieces.map .writeTrusted)
  | writeValue (value : Value) : Cut (.writeValue value) [.writeValue value]
  | setSoft (soft : Bool) : Cut (.setSoft soft) [.setSoft soft]
  | flush : Cut .flush [.flush]

/-- There is memory for all that a call could have to hold back. -/
def FitsCall (w : Writer) : Call → Prop
  | .writeTrusted text => w.Fits text
  | .writeValue value => w.ready.Fits (w.ready.escapeValue value)
  | .setSoft _ | .flush | .close => True

/-- There is memory for all that the calls could have to hold back. That is always so if there is no
limit: no text is longer than half of the address space. -/
def FitsCalls (w : Writer) : List Call → Prop
  | [] => True
  | call :: calls => w.FitsCall call ∧ (w.perform call).writer.FitsCalls calls

instance (w : Writer) : (call : Call) → Decidable (w.FitsCall call)
  | .writeTrusted text => inferInstanceAs (Decidable (w.Fits text))
  | .writeValue value => inferInstanceAs (Decidable (w.ready.Fits (w.ready.escapeValue value)))
  | .setSoft _ | .flush | .close => inferInstanceAs (Decidable True)

/-- Whether there is memory for calls can be computed, by making them. -/
instance decidableFitsCalls : (w : Writer) → (calls : List Call) → Decidable (w.FitsCalls calls)
  | _, [] => inferInstanceAs (Decidable True)
  | w, call :: calls =>
    have := decidableFitsCalls (w.perform call).writer calls
    inferInstanceAs (Decidable (_ ∧ _))

/-- Memory for calls is memory for the first of them. -/
theorem FitsCalls.take {calls : List Call} (h : w.FitsCalls calls) (n : Nat) :
    w.FitsCalls (calls.take n) := by
  induction calls generalizing w n with
  | nil => rwa [List.take_nil]
  | cons call calls ih =>
    cases n with
    | zero => trivial
    | succ n => exact ⟨h.1, ih h.2 n⟩

/-- What a run of steady writers keeps. -/
structure Follows (bytesOf : Char → List UInt8) (w v : Writer) : Prop where
  agree : Agree w v
  steady : Steady bytesOf w
  steady' : Steady bytesOf v
  valid : Valid w
  valid' : Valid v
  opened : w.closed = false
  unsent : w.unsent = []

/-- **Two writers that agree still agree after a call** that one of them makes in pieces. -/
theorem Follows.cut (h : Follows bytesOf w v) {call : Call} {pieces : List Call}
    (hcut : Cut call pieces) (hfits : w.FitsCall call) :
    (w.perform call).error = none ∧ (v.run pieces).error = none
      ∧ Follows bytesOf (w.perform call).writer (v.run pieces).writer := by
  have hclosed : v.closed = false := h.agree.closed.trans h.opened
  have hw : Valid (w.perform call).writer := h.valid.perform call
  cases hcut with
  | writeTrusted pieces =>
    have hcall : w.perform (.writeTrusted pieces.flatten) = w.advance pieces.flatten :=
      writeTrusted_eq h.opened _
    -- one writer follows the text at once, the other one its pieces
    obtain ⟨hok, hnext, hs⟩ := followed_of_fits h.steady hfits
    obtain ⟨hok', hnext', hs'⟩ := followed_of_pieces h.valid' h.steady' hclosed
      (h.agree.unsent.trans h.unsent) pieces (h.agree.fits hfits)
    have hv' := hnext'.valid h.valid'
    rw [h.agree.decided, h.agree.held] at hnext'
    rw [hcall] at hw ⊢
    exact ⟨hok, hok', h.agree.of_followed hnext hnext', hs, hs', hw, hv',
      hnext.closed.trans h.opened, hnext.unsent⟩
  | writeValue value =>
    -- both are made ready in the same way, and write the same for the value
    have hready := h.agree.ready
    have hfits' := hready.fits hfits
    rw [← hready.escapeValue value] at hfits'
    obtain ⟨hok, hnext, hs⟩ := followed_of_fits h.steady.ready hfits
    obtain ⟨hok', hnext', hs'⟩ := followed_of_fits h.steady'.ready hfits'
    rw [← writeValue_eq h.opened] at hok hnext hs
    rw [← writeValue_eq hclosed] at hok' hnext' hs'
    rw [hready.decided, hready.held, hready.escapeValue value] at hnext'
    have hoptions : w.ready.closed = w.closed :=
      congrArg (·.2.2.2.1) (options_of_prepares (prepares h.valid))
    rw [run_singleton]
    exact ⟨hok, hok', hready.of_followed hnext hnext', hs, hs', hw,
      h.valid'.perform (.writeValue value), hnext.closed.trans (hoptions.trans h.opened),
      hnext.unsent⟩
  | setSoft soft =>
    rw [run_singleton]
    have hoptions : (v.setSoft soft).options = (w.setSoft soft).options :=
      congrArg (fun options => (options.1, soft, options.2.2)) h.agree.options
    have hagree := h.agree
    exact ⟨rfl, rfl, ⟨hagree.decided, hagree.held, hagree.unsent, hagree.sent, hoptions⟩,
      ⟨h.steady.sink, h.steady.coded, h.steady.account⟩,
      ⟨h.steady'.sink, h.steady'.coded, h.steady'.account⟩, hw, h.valid'.perform (.setSoft soft),
      h.opened, h.unsent⟩
  | flush =>
    rw [run_singleton]
    have hw' : w.perform .flush = w.callSink .flush := flush_eq h.opened
    have hv' : v.perform .flush = v.callSink .flush := flush_eq hclosed
    have hbytes : SinkCall.flush.bytes = [] := rfl
    obtain ⟨hok, hsent, hs⟩ := steady_callSink h.steady hbytes
    obtain ⟨hok', hsent', hs'⟩ := steady_callSink h.steady' hbytes
    have hagree := h.agree
    rw [hw', hv']
    exact ⟨hok, hok', ⟨hagree.decided, hagree.held, hagree.unsent,
        hsent'.trans (hagree.sent.trans hsent.symm), hagree.options⟩,
      hs, hs', ⟨h.valid.wellFormed, h.valid.held⟩, ⟨h.valid'.wellFormed, h.valid'.held⟩,
      h.opened, h.unsent⟩

/-- **Two writers that agree still agree after a run** that one of them makes in pieces. -/
theorem Follows.cuts (h : Follows bytesOf w v) {calls : List Call} {groups : List (List Call)}
    (hcuts : List.Forall₂ Cut calls groups) (hfits : w.FitsCalls calls) :
    (w.run calls).error = none ∧ (v.run groups.flatten).error = none
      ∧ Follows bytesOf (w.run calls).writer (v.run groups.flatten).writer := by
  induction hcuts generalizing w v with
  | nil => exact ⟨rfl, rfl, h⟩
  | cons hcut _ ih =>
    -- the pieces of the first call, and then those of the others
    obtain ⟨hok, hok', hnext⟩ := h.cut hcut hfits.1
    rw [List.flatten_cons, run_append, run, Outcome.andThen_ok hok, Outcome.andThen_ok hok']
    exact ih hnext hfits.2

/-! ### The end of the document -/

/-- A steady writer completes its document. -/
theorem sent_close (h : Steady bytesOf w) (hopen : w.closed = false) :
    w.close.error = none
      ∧ w.close.writer.sent = w.sent ++ (w.unsent ++ w.completion).flatMap bytesOf := by
  have hs : Steady bytesOf w.completed := ⟨h.sink, h.coded, h.account⟩
  obtain ⟨hok, hdecided, -, hs'⟩ := steady_sendDecided hs
  obtain ⟨hok', hflushed, hs''⟩ := steady_callSink hs' (show SinkCall.flush.bytes = [] from rfl)
  obtain ⟨hok'', hclosed, -⟩ := steady_callSink hs'' (show SinkCall.close.bytes = [] from rfl)
  rw [close_eq hopen, Outcome.andThen_ok hok, Outcome.andThen_ok hok']
  refine ⟨hok'', ?_⟩
  rw [hclosed, hflushed, hdecided, unsent_completed]
  rfl

/-- **Two writers that agree send the same at the end.** -/
theorem Follows.close (h : Follows bytesOf w v) :
    w.close.error = none ∧ v.close.error = none ∧ v.close.writer.sent = w.close.writer.sent := by
  obtain ⟨hok, hsent⟩ := sent_close h.steady h.opened
  obtain ⟨hok', hsent'⟩ := sent_close h.steady' (h.agree.closed.trans h.opened)
  have hcompletion : v.completion = w.completion := by
    rw [completion, completion, h.agree.decided, h.agree.held]
  refine ⟨hok, hok', ?_⟩
  rw [hsent, hsent', h.agree.sent, h.agree.unsent, hcompletion]

/-- **Trusted text may be cut anywhere.** What a text leads to does not depend on the pieces in
which it arrives, for the grammar alone and for a writer. After each of the calls that are cut, the
writer is in the same context, holds back the same text and has sent the same bytes as without the
cuts; if it is closed then, the documents are the same. -/
theorem agree_of_cut :
    (∀ (ctx : Context) (last : Bool) (a b : Text),
      ctx.advance last (a ++ b)
        = ((ctx.advance false a).context.advance last ((ctx.advance false a).held ++ b)).after
            (ctx.advance false a).written) ∧
    ∀ (settings : Settings) (sink : Sink) (serializer : Serializer), sink.IsReliable →
      ∀ bytesOf : Char → List UInt8, settings.charset.Encodes bytesOf →
      ∀ (calls : List Call) (groups : List (List Call)), List.Forall₂ Cut calls groups →
      (new settings sink serializer).FitsCalls calls → ∀ n : Nat,
      let whole := (new settings sink serializer).run (calls.take n)
      let cut := (new settings sink serializer).run (groups.take n).flatten
      (whole.error = none ∧ cut.error = none)
        ∧ cut.writer.context = whole.writer.context
        ∧ cut.writer.held.text = whole.writer.held.text
        ∧ cut.writer.sent = whole.writer.sent
        ∧ (whole.writer.close.error = none ∧ cut.writer.close.error = none)
        ∧ cut.writer.close.writer.sent = whole.writer.close.writer.sent := by
  refine ⟨Context.advance_append, ?_⟩
  intro settings sink serializer hsink bytesOf hcoded calls groups hcut hfits n
  have hnew : Valid (new settings sink serializer) := (Reachable.new _ _ _).valid
  have hsteady : Steady bytesOf (new settings sink serializer) := ⟨hsink, hcoded, rfl⟩
  -- at the start the two writers are the same one
  have hstart : Follows bytesOf (new settings sink serializer) (new settings sink serializer) :=
    ⟨⟨rfl, rfl, rfl, rfl, rfl⟩, hsteady, hsteady, hnew, hnew, rfl, rfl⟩
  -- the calls that are cut are compared one by one, each with its pieces
  obtain ⟨hok, hok', hend⟩ := hstart.cuts (List.forall₂_take n hcut) (hfits.take n)
  obtain ⟨hclose, hclose', hsent⟩ := hend.close
  exact ⟨⟨hok, hok'⟩, hend.agree.context, hend.agree.held, hend.agree.sent,
    ⟨hclose, hclose'⟩, hsent⟩

/-- A tag that is cut in the name of an attribute and in a reference, in a code page, before a value
with a character that the code page has and one that it does not have. -/
theorem tag_may_be_cut :
    let page := CodePage.windows1252
    let settings : Settings := { charset := .other page.name page.encode }
    let sink : Sink := { failure? := fun _ _ => none }
    let value := Writer.Call.writeValue (.str "é;\"> ☃".toList)
    let whole := (new settings sink).run [.writeTrusted "<a title=x&am".toList, value]
    let cut := (new settings sink).run
      [.writeTrusted "<a ti".toList, .writeTrusted "tle=".toList, .writeTrusted [],
        .writeTrusted "x&a".toList, .writeTrusted "m".toList, value]
    sink.IsReliable ∧ settings.charset.Encodes (charBytes page.byte?)
      ∧ whole.error = none ∧ cut.writer.close.writer.sent = whole.writer.close.writer.sent := by
  intro page settings sink value whole cut
  have hsink : sink.IsReliable := fun _ _ => rfl
  have hcoded : settings.charset.Encodes (charBytes page.byte?) := page.encodes
  have hcut : List.Forall₂ Cut [.writeTrusted "<a title=x&am".toList, value]
      [[.writeTrusted "<a ti".toList, .writeTrusted "tle=".toList, .writeTrusted [],
        .writeTrusted "x&a".toList, .writeTrusted "m".toList], [value]] :=
    .cons (.writeTrusted ["<a ti".toList, "tle=".toList, [], "x&a".toList, "m".toList])
      (.cons (.writeValue _) .nil)
  have hrun := agree_of_cut.2 settings sink .default hsink _ hcoded _ _ hcut (by decide +kernel) 2
  exact ⟨hsink, hcoded, hrun.1.1, hrun.2.2.2.2.2⟩

end Writer

end SafeMarkup
