import SafeMarkup.Proofs.Reachable
import SafeMarkup.Proofs.HtmlEscape
import SafeMarkup.Proofs.EscapedText

/-!
# Values in URLs and code

In URLs, JS and CSS the language at the cursor reads a value as it has been escaped for that
language, once, whether or not it is in the value of an attribute (`advance_apply`). So after the
value a writer is at the end of that text, with nothing held back and nothing refused
(`reads_writeValue`).
-/

namespace SafeMarkup

namespace Context

variable {ctx : Context} {options : EscapeOptions} {t : Text}

/-- Is the cursor in a URL or in code? -/
def InCode (ctx : Context) : Prop :=
  ctx.state = .url ∨ ctx.state.isJs = true ∨ ctx.state.isCss = true

/-- What the language at the cursor reads for an untrusted text. -/
def readFor (ctx : Context) (options : EscapeOptions) (t : Text) : Text :=
  ctx.secondBackslash ++ (Escaper.ofContext ctx).escape options t

theorem InCode.isContent (h : ctx.InCode) : ctx.state.isContent = true := by
  cases hs : ctx.state <;> simp_all [InCode, State.isContent, State.isJs, State.isCss]

theorem InCode.state_ne (h : ctx.InCode) : ctx.state ≠ .beforeValue := by
  intro hs
  have hcontent := h.isContent
  rw [hs] at hcontent
  cases hcontent

/-- A `/` means nothing in markup while the cursor is in a URL or in code. -/
theorem InCode.advance_slash {last : Bool} (h : ctx.InCode) :
    ctx.advance last ['/'] = ⟨ctx.feed '/', ['/'], []⟩ := by
  cases hd : ctx.delim with
  | none => exact advance_content hd h.isContent (by decide)
  | some delim =>
    have hplain : delim.isPlain '/' = true := by cases delim <;> decide
    exact advance_value hd (by simpa using hplain)

/-- Outside of values of attributes text is escaped once. -/
theorem apply_eq (hd : ctx.delim = none) (hs : ctx.state ≠ .beforeValue) :
    (Directive.ofContext ctx).apply options t = ctx.readFor options t := by
  have hquoting : Directive.quoting ctx = none := by simp [Directive.quoting, hd, hs]
  cases h : Escaper.ofContext ctx <;>
    simp [readFor, secondBackslash, Directive.ofContext, Directive.apply, Directive.escapeInAttr,
      hquoting, h]

/-- In values of attributes URLs and code are escaped a second time. -/
theorem apply_eq_escape {delim : Delim} (hd : ctx.delim = some delim)
    (h : (Escaper.ofContext ctx).isSinglePass = false) :
    (Directive.ofContext ctx).apply options t
      = Html.escape delim.quoting false (ctx.readFor options t) := by
  have hback : Html.escape delim.quoting false ctx.secondBackslash = ctx.secondBackslash := by
    unfold secondBackslash
    split
    · cases delim <;> decide
    · rfl
  rw [readFor, Html.escape_append, hback]
  cases he : Escaper.ofContext ctx <;>
    simp_all [secondBackslash, Directive.ofContext, Directive.apply, Directive.escapeInAttr,
      Directive.quoting_eq hd, Escaper.isSinglePass]

/-- **In code the value's own escaping is all that is read.** -/
theorem advance_apply {last : Bool} (hcode : ctx.InCode)
    (hclean : ∀ c ∈ (Escaper.ofContext ctx).escape options t, c ≠ '<' ∧ c ≠ '\x00') :
    ctx.advance last ((Directive.ofContext ctx).apply options t)
      = ⟨ctx.feedAll (ctx.readFor options t), (Directive.ofContext ctx).apply options t, []⟩ := by
  have hread : ∀ c ∈ ctx.readFor options t, c ≠ '<' ∧ c ≠ '\x00' := by
    intro c hc
    rcases List.mem_append.mp hc with hc | hc
    · rw [eq_of_mem_secondBackslash hc]
      decide
    · exact hclean c hc
  cases hd : ctx.delim with
  | none =>
    rw [apply_eq hd hcode.state_ne]
    exact advance_content hd hcode.isContent fun hmem => (hread _ hmem).1 rfl
  | some delim =>
    -- the second pass is undone, and there is no NUL that would be replaced
    have hdecoded : (ctx.readFor options t).map decoded = ctx.readFor options t :=
      (List.map_congr_left fun c hc => if_neg (hread c hc).2).trans (List.map_id _)
    rw [apply_eq_escape hd (isSinglePass_ofContext hcode), advance_escape hd, hdecoded]

end Context

namespace Writer

variable {w : Writer}

/-- What the language at the cursor reads for a value. -/
def readText (w : Writer) (value : Value) : Text :=
  w.context.readFor { soft := w.soft, schemes := w.schemes }
    (valueText w.serializer (Escaper.ofContext w.context) value)

/-- Without anything held back the writer is where it seems to be. -/
theorem context_eq_decided (h : w.held.text = []) : w.context = w.decided := by
  rw [context, h, Context.peek_nil]

/-- Text that leaves nothing open is followed whatever the memory for held back text. -/
theorem advance_eq_of_held {text : Text} {p : Progress} (hnone : w.held.text = [])
    (hp : w.decided.advance false text = p) (hheld : p.held = []) :
    w.advance text = sendDecided (w.record p.context p.written) := by
  have hempty : w.held.isEmpty = true := List.isEmpty_iff.mpr hnone
  rw [Writer.advance, if_pos hempty, hp]
  simp only [hheld, List.isEmpty_nil, ↓reduceIte]

/-- In code a name plays no role. -/
theorem nameStart_eq_nil (h : w.context.InCode) : w.nameStart = [] := by
  have hs := h.isContent
  unfold nameStart
  split
  · next hname => rw [hname] at hs; cases hs
  · next hname => rw [hname] at hs; cases hs
  · rfl

/-- In content what is written is what is read. -/
theorem escapeValue_eq_readText (hcode : w.context.InCode) (hd : w.context.delim = none)
    (value : Value) : w.escapeValue value = w.readText value := by
  rw [escapeValue, nameStart_eq_nil hcode, Context.apply_eq hd hcode.state_ne]
  rfl

/-- `next` has read `t` and holds nothing back. -/
structure Reads (w : Writer) (t : Text) (next : Writer) : Prop where
  context : next.context = w.context.feedAll t
  held : next.held.text = []
  serializer : next.serializer = w.serializer
  schemes : next.schemes = w.schemes
  closed : next.closed = w.closed

/-- In code nothing of a value is held back. Nothing must be held back before, unless the cursor is
in the value of an attribute. -/
theorem writeValue_inCode (hw : Reachable w) (hopen : w.closed = false)
    (hcode : w.context.InCode) (hheld : w.held.text = [] ∨ w.decided.inAttrValue = true)
    (value : Value)
    (hclean : ∀ c ∈ (Escaper.ofContext w.context).escape { soft := w.soft, schemes := w.schemes }
      (valueText w.serializer (Escaper.ofContext w.context) value), c ≠ '<' ∧ c ≠ '\x00') :
    ∃ sent : Writer, w.writeValue value = sendDecided sent
      ∧ sent.decided = w.context.feedAll (w.readText value) ∧ sent.held.text = []
      ∧ sent.options = w.options := by
  have hp := prepares hw.valid
  obtain ⟨hbegun, hnone⟩ := decided_of_prepares hw.valid hp hheld
  -- no quotes are opened in code, so the place is the same before the value
  have hdecided : w.ready.decided = w.context := by
    rw [hbegun, Context.beginValue, if_neg hcode.state_ne]
  have hoptions := options_of_prepares hp
  rw [writeValue_eq hopen]
  generalize w.ready = w' at *
  have hcontext : w'.context = w.context := (context_eq_decided hnone).trans hdecided
  -- the escaper depends on the context and the options, and both are as before
  have hwritten : w'.escapeValue value = (Directive.ofContext w.context).apply
      { soft := w.soft, schemes := w.schemes }
      (valueText w.serializer (Escaper.ofContext w.context) value) := by
    have hname : w'.nameStart = [] := nameStart_eq_nil (hcontext ▸ hcode)
    simp only [options, Prod.mk.injEq] at hoptions
    obtain ⟨hserializer, hsoft, hschemes, -⟩ := hoptions
    rw [escapeValue, hname, hcontext, hserializer, hsoft, hschemes]
  have hread : w'.decided.advance false (w'.escapeValue value)
      = ⟨w.context.feedAll (w.readText value), w'.escapeValue value, []⟩ := by
    rw [hdecided, hwritten]
    exact Context.advance_apply hcode hclean
  exact ⟨_, advance_eq_of_held hnone hread rfl, rfl, hnone, hoptions⟩

/-- **In code a writer reads exactly what the value has been escaped to.** -/
theorem reads_writeValue (hw : Reachable w) (hopen : w.closed = false) (hcode : w.context.InCode)
    (hheld : w.held.text = [] ∨ w.decided.inAttrValue = true) (value : Value)
    (hclean : ∀ c ∈ (Escaper.ofContext w.context).escape { soft := w.soft, schemes := w.schemes }
      (valueText w.serializer (Escaper.ofContext w.context) value), c ≠ '<' ∧ c ≠ '\x00') :
    w.Reads (w.readText value) (w.writeValue value).writer := by
  obtain ⟨sent, hcall, hdecided, hnone, hoptions⟩ :=
    writeValue_inCode hw hopen hcode hheld value hclean
  simp only [options, Prod.mk.injEq] at hoptions
  obtain ⟨hserializer, -, hschemes, hclosed, -⟩ := hoptions
  have hcontext : sent.context = sent.decided := context_eq_decided hnone
  rw [hcall]
  exact ⟨hcontext.trans hdecided, hnone, hserializer, hschemes, hclosed⟩

end Writer

end SafeMarkup
