import SafeMarkup.Html.Attribute
import SafeMarkup.Html.Element
import SafeMarkup.Proofs.ByteView
import SafeMarkup.Proofs.Peek

/-!
# Names read byte by byte

Names of elements and attributes are classified by their bytes. All names that are known consist of
ASCII characters, so a name is in the same class as its bytes.
-/

namespace SafeMarkup

variable {c d : Char} {t a part name : Text}

/-! ### Letter case -/

/-- There is no other case outside of ASCII. -/
theorem toLower_of_not_isAscii (hc : isAscii c = false) : c.toLower = c := by
  have hlarge : 128 ≤ c.toNat := by
    rw [Bool.eq_false_iff, ne_eq, isAscii_iff] at hc
    omega
  have hnot : ¬ (c.val ≥ 'A'.val ∧ c.val ≤ 'Z'.val) := by
    rintro ⟨-, h⟩
    have hle : c.toNat ≤ 90 := UInt32.le_iff_toNat_le.mp h
    omega
  unfold Char.toLower
  exact dif_neg hnot

/-- Lower case stays within ASCII. -/
theorem isAscii_toLower (hc : isAscii c = true) : isAscii c.toLower = true := by
  unfold Char.toLower
  split
  · next hupper =>
    have hle : c.val.toNat ≤ 90 := UInt32.le_iff_toNat_le.mp hupper.2
    rw [isAscii_iff]
    show (c.val + ('a'.val - 'A'.val)).toNat < 128
    rw [UInt32.toNat_add]
    show (c.val.toNat + 32) % 4294967296 < 128
    omega
  · exact hc

namespace Text

/-- Letter case is a matter of single bytes. -/
theorem lower_byteView (t : Text) : lower (byteView t) = byteView (lower t) := by
  induction t with
  | nil => rfl
  | cons c t ih =>
    by_cases hc : isAscii c = true
    · show lower (byteView (c :: t)) = byteView (c.toLower :: lower t)
      rw [byteView_cons_of_isAscii hc, byteView_cons_of_isAscii (isAscii_toLower hc), ← ih]
      rfl
    · rw [Bool.not_eq_true] at hc
      have hself : lower (byteView [c]) = byteView [c] := by
        rw [lower, List.map_congr_left fun x hx =>
          toLower_of_not_isAscii (isAscii_of_mem_byteView_singleton hc x hx), List.map_id']
      show lower (byteView (c :: t)) = byteView (c.toLower :: lower t)
      rw [toLower_of_not_isAscii hc, byteView_cons, lower_append, hself, ih, ← byteView_cons]

/-! ### Known names -/

/-- A name is compared over its length. -/
theorem startsWithName_eq (t start : Text) :
    startsWithName t start = (lower start).isPrefixOf (lower t) := by
  rw [Bool.eq_iff_iff, startsWithName, sameName, beq_iff_eq, List.isPrefixOf_iff_prefix,
    List.prefix_iff_eq_take, length_lower, lower, lower, List.map_take]
  exact eq_comm

section Ascii

variable (hname : ∀ c ∈ lower name, isAscii c = true)
include hname

theorem sameName_byteView : sameName (byteView t) name = sameName t name := by
  rw [Bool.eq_iff_iff, sameName, sameName, beq_iff_eq, beq_iff_eq, lower_byteView,
    byteView_eq_iff hname]

theorem startsWithName_byteView : startsWithName (byteView t) name = startsWithName t name := by
  rw [startsWithName_eq, startsWithName_eq, lower_byteView, isPrefixOf_byteView hname]

end Ascii

/-- A name does not start within a character that is not ASCII. -/
theorem containsName_append_of_not_isAscii (hname : ∀ c ∈ lower name, isAscii c = true)
    (hne : name ≠ []) (ha : ∀ c ∈ a, isAscii c = false) :
    containsName (a ++ t) name = containsName t name := by
  induction a with
  | nil => rfl
  | cons c a ih =>
    obtain ⟨hc, ha⟩ := List.forall_mem_cons.mp ha
    -- the first character of the name is ASCII, and `c` is not
    obtain ⟨d, more, rfl⟩ := List.exists_cons_of_ne_nil hne
    have hd : isAscii d.toLower = true := hname d.toLower List.mem_cons_self
    have hdc : (d.toLower == c) = false := beq_false_of_ne (ne_of_class hd hc)
    have hnot : startsWithName (c :: (a ++ t)) (d :: more) = false := by
      rw [startsWithName_eq]
      show (d.toLower :: lower more).isPrefixOf (c.toLower :: lower (a ++ t)) = false
      rw [toLower_of_not_isAscii hc, List.isPrefixOf, hdc, Bool.false_and]
    rw [List.cons_append, containsName, hnot, Bool.false_or, ih ha]

theorem containsName_byteView (hname : ∀ c ∈ lower name, isAscii c = true) (hne : name ≠ []) :
    containsName (byteView t) name = containsName t name := by
  induction t with
  | nil => rfl
  | cons c t ih =>
    by_cases hc : isAscii c = true
    · have hstart := startsWithName_byteView hname (t := c :: t)
      rw [byteView_cons_of_isAscii hc] at hstart ⊢
      rw [containsName, containsName, hstart, ih]
    · rw [Bool.not_eq_true] at hc
      have hself : ∀ d ∈ [c], isAscii d = false := by simpa using hc
      have hskip : containsName ([c] ++ t) name = containsName t name :=
        containsName_append_of_not_isAscii hname hne hself
      rw [byteView_cons, containsName_append_of_not_isAscii hname hne
        (isAscii_of_mem_byteView_singleton hc), ih]
      exact hskip.symm

end Text

namespace Html

open Text CharRef

/-- **An element is known by the bytes of its name.** -/
theorem Element.ofTagName?_byteView (t : Text) :
    Element.ofTagName? (byteView t) = Element.ofTagName? t := by
  have hsame (element : Element) :
      sameName (byteView t) element.tagName = sameName t element.tagName := by
    apply sameName_byteView
    cases element <;> exact List.all_eq_true.mp rfl
  unfold Element.ofTagName?
  congr 1
  funext element
  exact hsame element

/-- A list of known names is searched in the bytes as in the text. -/
theorem any_byteView {known : Text → Text → Bool} {names : List Text}
    (hknown : ∀ name, name ≠ [] → (∀ c ∈ lower name, isAscii c = true) →
      known (byteView t) name = known t name)
    (h : (names.all fun name => !name.isEmpty && (lower name).all isAscii) = true) :
    names.any (known (byteView t)) = names.any (known t) := by
  induction names with
  | nil => rfl
  | cons name names ih =>
    rw [List.all_cons, Bool.and_eq_true, Bool.and_eq_true, List.all_eq_true] at h
    obtain ⟨⟨hne, hname⟩, hnames⟩ := h
    have hne' : name ≠ [] := by simpa using hne
    rw [List.any_cons, List.any_cons, hknown name hne' hname, ih hnames]

/-- An attribute is classified by its bytes as by its characters. -/
theorem AttrKind.ofLocalName_byteView (t : Text) :
    AttrKind.ofLocalName (byteView t) = AttrKind.ofLocalName t := by
  have hsame : ∀ name, name ≠ [] → (∀ c ∈ lower name, isAscii c = true) →
      sameName (byteView t) name = sameName t name := fun _ _ hname => sameName_byteView hname
  rw [ofLocalName, sameName_byteView (List.all_eq_true.mp rfl), any_byteView hsame rfl,
    any_byteView hsame rfl, startsWithName_byteView (List.all_eq_true.mp rfl),
    any_byteView (fun _ hne hname => containsName_byteView hname hne) rfl]
  rfl

/-- What a known name starts with consists of ASCII characters. -/
theorem isAscii_of_startsWithName (h : startsWithName t name = true)
    (hname : ∀ c ∈ lower name, isAscii c = true) : ∀ c ∈ t.take name.length, isAscii c = true := by
  have hlower : lower (t.take name.length) = lower name := eq_of_beq h
  intro c hc
  by_cases hascii : isAscii c = true
  · exact hascii
  · rw [Bool.not_eq_true] at hascii
    rw [← toLower_of_not_isAscii hascii]
    exact hname _ (hlower ▸ List.mem_map_of_mem hc)

/-- **An attribute is known by the bytes of its name.** -/
theorem AttrKind.ofName_byteView (t : Text) : AttrKind.ofName (byteView t) = AttrKind.ofName t := by
  have hcolon : AsciiOnly (· == ':') := asciiOnly_eq (by decide)
  unfold ofName
  rw [startsWithName_byteView (List.all_eq_true.mp rfl)]
  split
  · next hdata =>
    have hdrop : (byteView t).drop 5 = byteView (t.drop 5) :=
      drop_byteView (isAscii_of_startsWithName hdata (List.all_eq_true.mp rfl))
    rw [hdrop, ofLocalName_byteView]
  -- the colon is ASCII, so the bytes are cut where the characters are
  have htake : (byteView t).takeWhile (· != ':') = byteView (t.takeWhile (· != ':')) :=
    takeWhile_byteView hcolon t
  have hdrop : (byteView t).dropWhile (· != ':') = byteView (t.dropWhile (· != ':')) :=
    dropWhile_byteView hcolon t
  rw [htake, hdrop]
  -- what is after the colon counts, if there is one and the prefix is no namespace
  cases hrest : t.dropWhile (· != ':') with
  | nil => exact ofLocalName_byteView t
  | cons d z =>
    have hne : t.dropWhile (· != ':') ≠ [] := by rw [hrest]; exact List.cons_ne_nil d z
    have hd : d = ':' := by simpa [hrest] using List.head_dropWhile_not _ hne
    subst hd
    rw [byteView_cons_of_isAscii (by decide)]
    dsimp only
    rw [sameName_byteView (List.all_eq_true.mp rfl), ofLocalName_byteView]

/-! ### End tags -/

namespace Element

/-- The name of an end tag consists of ASCII characters, as far as it has been read. -/
theorem isAscii_of_couldEnd {element : Element} (h : element.couldEnd t = true) :
    ∀ c ∈ t.take element.tagName.length, isAscii c = true := by
  intro c hc
  have hstart : element.couldEnd (t.take element.tagName.length) = true := by
    apply couldEnd_of_append (b := t.drop element.tagName.length)
    rwa [List.take_append_drop]
  by_cases hascii : isAscii c = true
  · exact hascii
  · rw [Bool.not_eq_true] at hascii
    have hletter : c.toLower.isAlpha = false := by
      rw [toLower_of_not_isAscii hascii, Bool.eq_false_iff]
      intro halpha
      have halphanum : c.isAlphanum = true := by rw [Char.isAlphanum, halpha, Bool.true_or]
      rw [isAscii_of_isAlphanum halphanum] at hascii
      cases hascii
    exact absurd hc (notMem_of_couldEnd hletter hstart (List.length_take_le _ _))

/-- The comparison with the name of an end tag sees the same in the bytes as in the characters. -/
theorem couldEnd_byteView (element : Element) (t : Text) :
    element.couldEnd (byteView t) = element.couldEnd t := by
  have hname : ∀ d ∈ element.tagName, isAscii d = true := by
    cases element <;> exact List.all_eq_true.mp rfl
  unfold couldEnd
  generalize element.tagName = name at hname
  -- on the name: each of its characters is compared with one byte
  induction name generalizing t with
  | nil => rw [List.zip_nil_right, List.zip_nil_right]
  | cons d name ih =>
    obtain ⟨hd, hname⟩ := List.forall_mem_cons.mp hname
    generalize hv : byteView t = view
    cases hv ▸ lead t with
    | nil => rfl
    | ascii c t hc =>
      rw [List.zip_cons_cons, List.zip_cons_cons, List.all_cons, List.all_cons, ih t hname]
    | wide c e t more hc he =>
      -- neither of the first two bytes of a wide character is in a name
      have hne {x : Char} (hx : isAscii x = false) : (x.toLower == d) = false := by
        rw [toLower_of_not_isAscii hx]
        exact beq_false_of_ne (ne_of_class hd hx).symm
      simp only [List.zip_cons_cons, List.all_cons, hne hc, hne he, Bool.false_and]

end Element

end Html

end SafeMarkup
