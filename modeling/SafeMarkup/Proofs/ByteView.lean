import SafeMarkup.Proofs.CharRef
import SafeMarkup.Text.Bytes

/-!
# What the bytes of a text show

All characters with a meaning in markup are ASCII characters, and in UTF-8 these are told from the
rest byte by byte: an ASCII character is its only byte, and no byte of another character is that of
an ASCII one. So a scan for ASCII characters finds among the bytes what it would find among the
characters, even if it starts in the middle of a character (`findIdx?_byteView`).
-/

namespace SafeMarkup

variable {c d : Char} {t a z : Text} {p : Char → Bool}

/-! ### ASCII characters -/

/-- Only ASCII characters are in the class. -/
def AsciiOnly (p : Char → Bool) : Prop := ∀ c, p c = true → isAscii c = true

theorem AsciiOnly.eq_false (hp : AsciiOnly p) (hc : isAscii c = false) : p c = false :=
  Bool.eq_false_iff.mpr fun h => by rw [hp c h] at hc; cases hc

theorem asciiOnly_eq (hd : isAscii d = true) : AsciiOnly (· == d) :=
  fun _ h => by rw [eq_of_beq h, hd]

/-- Two classes that only hold ASCII make another one. -/
theorem AsciiOnly.or {q : Char → Bool} (hp : AsciiOnly p) (hq : AsciiOnly q) :
    AsciiOnly fun c => p c || q c := by
  intro c h
  rcases Bool.or_eq_true_iff.mp h with h | h
  · exact hp c h
  · exact hq c h

theorem asciiOnly_isHtmlSpace : AsciiOnly isHtmlSpace := by
  intro c h
  simp only [isHtmlSpace, Bool.or_eq_true, beq_iff_eq] at h
  rcases h with (((rfl | rfl) | rfl) | rfl) | rfl <;> decide

/-- The two are in the same classes of ASCII characters: they are equal, or neither is ASCII. -/
def Similar (b c : Char) : Prop := ∀ p, AsciiOnly p → p b = p c

theorem Similar.eq_iff {b : Char} (h : Similar b c) (hd : isAscii d = true) : b = d ↔ c = d := by
  have heq := h (· == d) (asciiOnly_eq hd)
  rw [Bool.eq_iff_iff, beq_iff_eq, beq_iff_eq] at heq
  exact heq

namespace Text

/-! ### The first character of a class -/

/-- The first character of a class, or the absence of one. -/
inductive Stop (p : Char → Bool) : Text → Prop where
  | found (a : Text) (d : Char) (z : Text) (ha : ∀ c ∈ a, p c = false) (hd : p d = true) :
      Stop p (a ++ d :: z)
  | absent (t : Text) (ht : ∀ c ∈ t, p c = false) : Stop p t

/-- A scan finds a character of the class, or there is none. -/
theorem stop (p : Char → Bool) (t : Text) : Stop p t := by
  by_cases hend : t.dropWhile (!p ·) = []
  · exact .absent t (by simpa using hend)
  · obtain ⟨a, d, z, rfl, ha, hd⟩ := Html.CharRef.exists_stop hend
    exact .found a d z (by simpa using ha) (by simpa using hd)

theorem takeWhile_found (ha : ∀ c ∈ a, p c = false) (hd : p d = true) :
    (a ++ d :: z).takeWhile (!p ·) = a := by
  rw [Html.CharRef.takeWhile_append_stop (by simp [hd]), List.takeWhile_eq_self_iff]
  simpa using ha

theorem dropWhile_found (ha : ∀ c ∈ a, p c = false) (hd : p d = true) :
    (a ++ d :: z).dropWhile (!p ·) = d :: z := by
  have hnone : a.dropWhile (!p ·) = [] := by simpa using ha
  rw [Html.CharRef.dropWhile_append_stop (by simp [hd]), hnone]
  rfl

theorem takeWhile_absent (ha : ∀ c ∈ a, p c = false) : a.takeWhile (!p ·) = a := by
  rw [List.takeWhile_eq_self_iff]
  simpa using ha

theorem dropWhile_absent (ha : ∀ c ∈ a, p c = false) : a.dropWhile (!p ·) = [] := by
  simpa using ha

end Text

/-! ### Bytes of characters -/

/-- The byte of an ASCII character is its number. -/
theorem utf8EncodeChar_of_isAscii (hc : isAscii c = true) :
    String.utf8EncodeChar c = [UInt8.ofNat c.toNat] := by
  have hsize : c.utf8Size = 1 := by
    rw [Char.utf8Size_eq_one_iff, UInt32.le_iff_toNat_le]
    exact Nat.le_of_lt_succ (isAscii_iff.mp hc)
  rw [String.utf8EncodeChar_eq_singleton hsize]
  rfl

/-- An ASCII character is the one with the number of its byte. -/
theorem ofUInt8_of_isAscii (hc : isAscii c = true) : Char.ofUInt8 (UInt8.ofNat c.toNat) = c := by
  have hlt := isAscii_iff.mp hc
  apply Char.ext
  apply UInt32.toNat_inj.mp
  show (UInt8.ofNat c.toNat).toNat = c.toNat
  rw [UInt8.toNat_ofNat']
  omega

namespace Text

/-- An ASCII character is its only byte. -/
theorem byteView_singleton (hc : isAscii c = true) : byteView [c] = [c] := by
  rw [byteView, utf8Bytes, List.flatMap_singleton, utf8EncodeChar_of_isAscii hc]
  exact congrArg (fun x => [x]) (ofUInt8_of_isAscii hc)

/-- No byte of another character is that of an ASCII one. -/
theorem isAscii_of_mem_byteView_singleton (hc : isAscii c = false) :
    ∀ x ∈ byteView [c], isAscii x = false := by
  have hsize : ¬ c.val.toNat ≤ 127 := fun h => by
    have hascii : isAscii c = true := isAscii_iff.mpr (Nat.lt_succ_of_le h)
    rw [hascii] at hc
    cases hc
  have hlarge {n : Nat} (hn : 128 ≤ n) (hlt : n < 256) :
      isAscii (Char.ofUInt8 (UInt8.ofNat n)) = false := by
    rw [Bool.eq_false_iff, ne_eq, isAscii_iff]
    show ¬ (UInt8.ofNat n).toNat < 128
    rw [UInt8.toNat_ofNat']
    omega
  intro x hx
  -- the first of two, three or four bytes has the two highest bits set, the others the highest one
  simp only [byteView, ofBytes, utf8Bytes, List.flatMap_cons, List.flatMap_nil, List.append_nil,
    String.utf8EncodeChar, if_neg hsize] at hx
  split at hx
  · simp only [List.map_cons, List.map_nil, List.mem_cons, List.not_mem_nil, or_false] at hx
    rcases hx with rfl | rfl
    all_goals exact hlarge (by omega) (by omega)
  split at hx
  · simp only [List.map_cons, List.map_nil, List.mem_cons, List.not_mem_nil, or_false] at hx
    rcases hx with rfl | rfl | rfl
    all_goals exact hlarge (by omega) (by omega)
  · simp only [List.map_cons, List.map_nil, List.mem_cons, List.not_mem_nil, or_false] at hx
    rcases hx with rfl | rfl | rfl | rfl
    all_goals exact hlarge (by omega) (by omega)

theorem byteView_cons_of_isAscii (hc : isAscii c = true) (t : Text) :
    byteView (c :: t) = c :: byteView t := by
  rw [byteView_cons, byteView_singleton hc]
  rfl

theorem byteView_of_isAscii (h : ∀ c ∈ t, isAscii c = true) : byteView t = t := by
  induction t with
  | nil => rfl
  | cons c t ih =>
    obtain ⟨hc, ht⟩ := List.forall_mem_cons.mp h
    rw [byteView_cons_of_isAscii hc, ih ht]

/-- A text of ASCII characters has one byte for each. -/
theorem utf8Size_of_isAscii (h : ∀ c ∈ t, isAscii c = true) : utf8Size t = t.length := by
  rw [← length_byteView, byteView_of_isAscii h]

/-- After ASCII characters the bytes go on with those of the rest. -/
theorem drop_byteView {n : Nat} (h : ∀ c ∈ t.take n, isAscii c = true) :
    (byteView t).drop n = byteView (t.drop n) := by
  induction n generalizing t with
  | zero => rfl
  | succ n ih =>
    cases t with
    | nil => rfl
    | cons c t =>
      rw [List.take_succ_cons, List.forall_mem_cons] at h
      rw [byteView_cons_of_isAscii h.1, List.drop_succ_cons, List.drop_succ_cons, ih h.2]

/-- **What is ASCII among the bytes** is a character of the text. -/
theorem mem_of_mem_byteView (hc : c ∈ byteView t) (hascii : isAscii c = true) : c ∈ t := by
  induction t with
  | nil => cases hc
  | cons d t ih =>
    by_cases hd : isAscii d = true
    · rw [byteView_cons_of_isAscii hd, List.mem_cons] at hc
      exact List.mem_cons.mpr (hc.imp id ih)
    · rw [byteView_cons, List.mem_append] at hc
      rcases hc with hc | hc
      · have := isAscii_of_mem_byteView_singleton (Bool.eq_false_iff.mpr hd) c hc
        rw [hascii] at this
        cases this
      · exact List.mem_cons_of_mem d (ih hc)

/-- If no character is in a class of ASCII characters, no byte is. -/
theorem forall_byteView (hp : AsciiOnly p) (h : ∀ c ∈ t, p c = false) :
    ∀ c ∈ byteView t, p c = false := by
  intro c hc
  by_cases hascii : isAscii c = true
  · exact h c (mem_of_mem_byteView hc hascii)
  · exact hp.eq_false (Bool.eq_false_iff.mpr hascii)

/-- How the bytes of a text start. -/
inductive Lead : Text → Text → Prop where
  | nil : Lead [] []
  | ascii (c : Char) (t : Text) (hc : isAscii c = true) : Lead (c :: t) (c :: byteView t)
  | wide (c d : Char) (t more : Text) (hc : isAscii c = false) (hd : isAscii d = false) :
      Lead (c :: t) (d :: more)

/-- Bytes start in one of these ways. -/
theorem lead (t : Text) : Lead t (byteView t) := by
  cases t with
  | nil => exact .nil
  | cons c t =>
    by_cases hc : isAscii c = true
    · rw [byteView_cons_of_isAscii hc]
      exact .ascii c t hc
    · rw [Bool.not_eq_true] at hc
      -- no character is without bytes, and none of these is ASCII
      cases hbytes : byteView [c] with
      | nil =>
        have hsize := congrArg List.length hbytes
        rw [length_byteView] at hsize
        exact absurd hsize (Nat.ne_of_gt (utf8Size_pos (List.cons_ne_nil c [])))
      | cons d more =>
        rw [byteView_cons, hbytes]
        refine .wide c d t _ hc (isAscii_of_mem_byteView_singleton hc d ?_)
        rw [hbytes]
        exact List.mem_cons_self

/-- No other text has the bytes of an ASCII text. -/
theorem byteView_eq_iff (ha : ∀ c ∈ a, isAscii c = true) : byteView t = a ↔ t = a := by
  induction a generalizing t with
  | nil =>
    generalize hv : byteView t = view
    cases hv ▸ lead t <;> simp
  | cons c a ih =>
    obtain ⟨hc, ha⟩ := List.forall_mem_cons.mp ha
    generalize hv : byteView t = view
    cases hv ▸ lead t with
    | nil => simp
    | ascii d t hd => simp [ih ha]
    | wide d e t more hd he => simp [(ne_of_class hc hd).symm, (ne_of_class hc he).symm]

/-- The first byte of a character is like the character. -/
theorem exists_first_byte (c : Char) (t : Text) :
    ∃ b, (byteView (c :: t))[0]? = some b ∧ Similar b c := by
  generalize hv : byteView (c :: t) = view
  cases hv ▸ lead (c :: t) with
  | ascii _ _ hc => exact ⟨c, rfl, fun _ _ => rfl⟩
  | wide _ d _ more hc hd =>
    exact ⟨d, rfl, fun p hp => by rw [hp.eq_false hc, hp.eq_false hd]⟩

/-- What is ASCII from the second byte on is a character after the first one. -/
theorem mem_of_mem_drop_byteView (h : d ∈ (byteView (c :: t)).drop 1) (hd : isAscii d = true) :
    d ∈ t := by
  by_cases hc : isAscii c = true
  · rw [byteView_cons_of_isAscii hc] at h
    exact mem_of_mem_byteView h hd
  · rw [Bool.not_eq_true] at hc
    have hmem := List.mem_of_mem_drop h
    rw [byteView_cons, List.mem_append] at hmem
    rcases hmem with hmem | hmem
    · rw [isAscii_of_mem_byteView_singleton hc d hmem] at hd
      cases hd
    · exact mem_of_mem_byteView hmem hd

/-! ### Scans -/

/-- What a scan finds is as far away as the text before it is long. -/
theorem findIdx?_stop (ha : ∀ c ∈ a, p c = false) (hd : p d = true) :
    (a ++ d :: z).findIdx? p = some a.length := by
  have hnone : a.findIdx? p = none := List.findIdx?_eq_none_iff.mpr ha
  rw [List.findIdx?_append, hnone, List.findIdx?_cons, if_pos hd]
  simp

/-- **The first character of a class** is found among the bytes, and the position counts the bytes
before it. -/
theorem findIdx?_byteView (hp : AsciiOnly p) (ha : ∀ c ∈ a, p c = false) (hd : p d = true) :
    (byteView (a ++ d :: z)).findIdx? p = some (utf8Size a) := by
  rw [byteView_append, byteView_cons_of_isAscii (hp d hd),
    findIdx?_stop (forall_byteView hp ha) hd, length_byteView]

theorem findIdx?_byteView_eq_none (hp : AsciiOnly p) (ht : ∀ c ∈ t, p c = false) :
    (byteView t).findIdx? p = none :=
  List.findIdx?_eq_none_iff.mpr (forall_byteView hp ht)

theorem sliceFrom?_one (c : Char) (t : Text) :
    (byteView (c :: t)).sliceFrom? 1 = some ((byteView (c :: t)).drop 1) := by
  have hpos := utf8Size_pos (List.cons_ne_nil c t)
  rw [sliceFrom?, if_pos (by rw [length_byteView]; omega)]

/-- This stays so from the middle of the first character on. -/
theorem forall_drop_byteView (hp : AsciiOnly p) (h : ∀ d ∈ t, p d = false) :
    ∀ d ∈ (byteView (c :: t)).drop 1, p d = false := by
  intro d hd
  by_cases hascii : isAscii d = true
  · exact h d (mem_of_mem_drop_byteView hd hascii)
  · exact hp.eq_false (Bool.eq_false_iff.mpr hascii)

/-- **A scan from the second byte on** may start within a character, and finds what comes after
this character. -/
theorem findIdx?_drop_byteView (hp : AsciiOnly p) (ha : ∀ c ∈ a, p c = false) (hd : p d = true) :
    ((byteView (c :: a ++ d :: z)).drop 1).findIdx? p = some (utf8Size (c :: a) - 1) := by
  have hpos := utf8Size_pos (List.cons_ne_nil c a)
  rw [byteView_append, byteView_cons_of_isAscii (hp d hd),
    List.drop_append_of_le_length (by rw [length_byteView]; omega),
    findIdx?_stop (forall_drop_byteView hp ha) hd, List.length_drop, length_byteView]

theorem findIdx?_drop_byteView_eq_none (hp : AsciiOnly p) (ht : ∀ d ∈ t, p d = false) :
    ((byteView (c :: t)).drop 1).findIdx? p = none :=
  List.findIdx?_eq_none_iff.mpr (forall_drop_byteView hp ht)

/-- A scan for ASCII takes whole characters. -/
theorem takeWhile_byteView (hp : AsciiOnly p) (t : Text) :
    (byteView t).takeWhile (!p ·) = byteView (t.takeWhile (!p ·)) := by
  cases stop p t with
  | found a d z ha hd =>
    rw [byteView_append, byteView_cons_of_isAscii (hp d hd), takeWhile_found ha hd,
      takeWhile_found (forall_byteView hp ha) hd]
  | absent _ ht => rw [takeWhile_absent ht, takeWhile_absent (forall_byteView hp ht)]

theorem dropWhile_byteView (hp : AsciiOnly p) (t : Text) :
    (byteView t).dropWhile (!p ·) = byteView (t.dropWhile (!p ·)) := by
  cases stop p t with
  | found a d z ha hd =>
    rw [byteView_append, byteView_cons_of_isAscii (hp d hd), dropWhile_found ha hd,
      dropWhile_found (forall_byteView hp ha) hd, byteView_cons_of_isAscii (hp d hd)]
  | absent _ ht => rw [dropWhile_absent ht, dropWhile_absent (forall_byteView hp ht), byteView_nil]

/-! ### Prefixes -/

/-- A text of ASCII characters stands at the start of the bytes if it does so in the text. -/
theorem isPrefixOf_byteView (ha : ∀ c ∈ a, isAscii c = true) :
    a.isPrefixOf (byteView t) = a.isPrefixOf t := by
  -- on the ASCII text: a wide character of the other text differs from its next character, and so
  -- does the first byte of it
  induction a generalizing t with
  | nil => simp
  | cons c a ih =>
    obtain ⟨hc, ha⟩ := List.forall_mem_cons.mp ha
    generalize hv : byteView t = view
    cases hv ▸ lead t with
    | nil => rfl
    | ascii d t hd => simp [List.isPrefixOf, ih ha]
    | wide d e t more hd he =>
      have hcd : (c == d) = false := beq_false_of_ne (ne_of_class hc hd)
      have hce : (c == e) = false := beq_false_of_ne (ne_of_class hc he)
      simp [List.isPrefixOf, hcd, hce]

/-- The other way round it is the same: the bytes stand at the start of an ASCII text if the text
does. -/
theorem byteView_isPrefixOf (ha : ∀ c ∈ a, isAscii c = true) :
    (byteView t).isPrefixOf a = t.isPrefixOf a := by
  -- on the ASCII text, as before
  induction a generalizing t with
  | nil =>
    generalize hv : byteView t = view
    cases hv ▸ lead t <;> rfl
  | cons c a ih =>
    obtain ⟨hc, ha⟩ := List.forall_mem_cons.mp ha
    generalize hv : byteView t = view
    cases hv ▸ lead t with
    | nil => rfl
    | ascii d t hd => simp [List.isPrefixOf, ih ha]
    | wide d e t more hd he =>
      have hdc : (d == c) = false := beq_false_of_ne (ne_of_class hc hd).symm
      have hec : (e == c) = false := beq_false_of_ne (ne_of_class hc he).symm
      simp [List.isPrefixOf, hdc, hec]

theorem prefix_byteView (ha : ∀ c ∈ a, isAscii c = true) :
    a.isPrefixOf (byteView t) = true ↔ a <+: t := by
  rw [isPrefixOf_byteView ha, List.isPrefixOf_iff_prefix]

theorem byteView_prefix (ha : ∀ c ∈ a, isAscii c = true) :
    (byteView t).isPrefixOf a = true ↔ t <+: a := by
  rw [byteView_isPrefixOf ha, List.isPrefixOf_iff_prefix]

/-- What follows ASCII characters is found by its position. -/
theorem getElem?_byteView {n : Nat} (ha : ∀ c ∈ a, isAscii c = true) (hn : n = a.length) :
    (byteView (a ++ z))[n]? = (byteView z)[0]? := by
  rw [byteView_append, byteView_of_isAscii ha, hn, List.getElem?_append_right (by omega),
    Nat.sub_self]

end Text

end SafeMarkup
