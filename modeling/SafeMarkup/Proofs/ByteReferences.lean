import SafeMarkup.Html.CharRef.Match
import SafeMarkup.Proofs.ByteView
import SafeMarkup.Proofs.CharRef
import SafeMarkup.Proofs.NameSearch

/-!
# References in byte strings

Reading a reference from bytes finds what `scan` finds in their characters (`matchBytes_cons`): the
positions of its run are in range, and a number that 32 bits do not hold is as far from a code point
as the greatest number that they hold. So an answer given before the end of the bytes is final
(`matchBytes_is_stable`).
-/

namespace SafeMarkup

namespace Html.CharRef

variable {radix start : Nat} {front rest : Text}

/-! ### Numbers in 32 bits -/

/-- Saturating after each digit saturates the number as a whole. -/
theorem saturating_step (hradix : 0 < radix) (n d : Nat) :
    min (min (min n codeBound * radix) codeBound + d) codeBound
      = min (n * radix + d) codeBound := by
  have hn : n ≤ n * radix := Nat.le_mul_of_pos_right n hradix
  have hbound : codeBound ≤ codeBound * radix := Nat.le_mul_of_pos_right codeBound hradix
  rcases Nat.le_total n codeBound with hle | hge
  · rw [Nat.min_eq_left hle]
    omega
  · rw [Nat.min_eq_right hge]
    omega

/-- **A number in 32 bits** is the value of the digits as long as it fits. -/
theorem saturatingValue_eq (hradix : 0 < radix) (digits : Text) :
    saturatingValue radix digits = min (value radix digits) codeBound := by
  have hfold (n : Nat) :
      digits.foldl (fun code d => min (min (code * radix) codeBound + hexDigitValue d) codeBound)
          (min n codeBound)
        = min (digits.foldl (fun n d => n * radix + hexDigitValue d) n) codeBound := by
    induction digits generalizing n with
    | nil => rfl
    | cons d digits ih =>
      rw [List.foldl_cons, List.foldl_cons, saturating_step hradix, ih]
  exact hfold 0

/-- No character has a number that 32 bits do not hold. -/
theorem ofCodePoint_min (n : Nat) : ofCodePoint (min n codeBound) = ofCodePoint n := by
  rcases Nat.le_total n codeBound with hle | hge
  · rw [Nat.min_eq_left hle]
  · have hlarge {m : Nat} (hm : codeBound ≤ m) : ofCodePoint m = '\ufffd' := by
      have hnot : ¬ m.isValidChar := by
        unfold codeBound at hm
        rintro (h | ⟨-, h⟩) <;> omega
      rw [ofCodePoint, if_neg fun h => hnot h.2]
    rw [Nat.min_eq_right hge, hlarge hge, hlarge (Nat.le_refl _)]

/-! ### Runs -/

section Run

variable {run after : Text}

theorem slice?_run (front : Text) (h : run ++ after = rest) :
    (front ++ rest).slice? front.length (front.length + run.length) = some run := by
  rw [← h, Text.slice?_append]

theorem getElem?_run (front : Text) (h : run ++ after = rest) :
    (front ++ rest)[front.length + run.length]? = after.head? := by
  rw [← h, ← List.append_assoc, List.getElem?_append_right (by simp), List.length_append,
    Nat.sub_self, List.head?_eq_getElem?]

theorem run_eq_length_iff (front : Text) (h : run ++ after = rest) :
    front.length + run.length = (front ++ rest).length ↔ after.isEmpty = true := by
  rw [← h, List.isEmpty_iff, ← List.length_eq_zero_iff, List.length_append, List.length_append]
  omega

end Run

/-- A semicolon counts as one byte. -/
theorem semicolon_eq (t : Text) : (if t.head? = some ';' then 1 else 0) = semicolon t := by
  cases t with
  | nil => rfl
  | cons c more =>
    by_cases hc : c = ';'
    · rw [hc]
      rfl
    · rw [semicolon_cons hc, List.head?_cons, if_neg (by simpa using hc)]

/-! ### What bytes are read as -/

/-- A numeric reference. -/
theorem matchRun_number (front : Text) (hradix : 0 < radix) (last : Bool) :
    matchRun last front.length radix (front ++ rest)
      = some (scanNumber last radix (1 + front.length) (isRunByte radix) rest) := by
  have hne : radix ≠ 0 := Nat.ne_of_gt hradix
  have hrest := List.takeWhile_append_dropWhile (p := isRunByte radix) (l := rest)
  rw [matchRun, Text.sliceFrom?_append, scanNumber]
  simp only [Option.bind_eq_bind, Option.bind_some, slice?_run front hrest,
    getElem?_run front hrest, run_eq_length_iff front hrest, semicolon_eq,
    saturatingValue_eq hradix, ofCodePoint_min]
  -- both readers decide on the same run now and on what comes after it
  generalize rest.takeWhile (isRunByte radix) = run
  generalize rest.dropWhile (isRunByte radix) = after
  cases after <;> cases last <;> cases run <;> simp [hne, Nat.add_assoc]

/-- A named reference. -/
theorem matchRun_name (last : Bool) : matchRun last 0 0 rest = some (scanName last rest) := by
  have hrest := List.takeWhile_append_dropWhile (p := Char.isAlphanum) (l := rest)
  have hslice : rest.slice? 0 (0 + (rest.takeWhile Char.isAlphanum).length)
      = some (rest.takeWhile Char.isAlphanum) := slice?_run [] hrest
  have hclosing : rest[0 + (rest.takeWhile Char.isAlphanum).length]?
      = (rest.dropWhile Char.isAlphanum).head? := getElem?_run [] hrest
  have hstop : 0 + (rest.takeWhile Char.isAlphanum).length = rest.length
      ↔ (rest.dropWhile Char.isAlphanum).isEmpty = true := run_eq_length_iff [] hrest
  have htail : rest.sliceFrom? 0 = some rest := Text.sliceFrom?_append [] rest
  have hbyte : isRunByte 0 = Char.isAlphanum := rfl
  rw [matchRun, htail, scanName]
  simp only [Option.bind_eq_bind, Option.bind_some, hbyte, hslice, hclosing, hstop, semicolon_eq,
    searchName?_eq]
  -- what counts of the run is only how long it is and where it stops
  generalize rest.takeWhile Char.isAlphanum = run
  generalize rest.dropWhile Char.isAlphanum = after
  cases run with
  | nil => cases after <;> cases last <;> simp [lookup?_eq_none, nameBound]
  | cons c run =>
    -- both ask whether the name may go on in a later piece
    have hopen : (after.isEmpty = true ∧ last = false
        ∧ (0 ≠ 0 ∨ (c :: run).length < nameBound))
        ↔ (after.isEmpty && !last && (c :: run).length < nameBound) = true := by
      simp [and_assoc]
    simp only [hopen]
    split
    · rfl
    cases lookup? (c :: run) with
    | none => simp
    | some char => cases hlegacy : isLegacy char <;> simp [hlegacy, Nat.add_assoc, apply_ite]

/-- **Bytes are read like their characters.** -/
theorem matchBytes_cons (b : UInt8) (body : List UInt8) (last : Bool) :
    matchBytes (b :: body) last = some (scan last (Text.ofBytes body)) := by
  have hbody : (Text.ofBytes (b :: body)).sliceFrom? 1 = some (Text.ofBytes body) :=
    Text.sliceFrom?_append [Char.ofUInt8 b] (Text.ofBytes body)
  rw [matchBytes, hbody]
  simp only [Option.bind_eq_bind, Option.bind_some]
  generalize Text.ofBytes body = t
  -- the start of the run and its radix, as the kind of the reference has them
  cases kind t with
  | nil => exact matchRun_name last
  | hash =>
    show matchRun last 1 10 (['#'] ++ []) = some (scan last ['#'])
    exact matchRun_number ['#'] (by decide) last
  | hex x hx rest =>
    have hstart : runStart ('#' :: x :: rest) = (2, 16) := by rcases hx with rfl | rfl <;> rfl
    rw [hstart, scan_hex hx]
    exact matchRun_number ['#', x] (by decide) last
  | decimal c hx hX rest =>
    have hstart : runStart ('#' :: c :: rest) = (1, 10) := by simp [runStart, hx, hX]
    rw [hstart, scan_decimal hx hX]
    exact matchRun_number ['#'] (by decide) last
  | named c hc rest =>
    have hstart : runStart (c :: rest) = (0, 0) := by simp [runStart, hc]
    rw [hstart, scan_named hc]
    exact matchRun_name last

/-- References are made of ASCII characters. -/
theorem isAscii_of_isRefChar {c : Char} (h : isRefChar c = true ∨ c = ';') : isAscii c = true := by
  rcases h with h | rfl
  · rcases Bool.or_eq_true_iff.mp h with halpha | hhash
    · exact isAscii_of_isAlphanum halpha
    · rw [eq_of_beq hhash]
      decide
  · decide

/-- Bytes that are not those of a reference end it like the character that they belong to. -/
theorem scan_byteView (last : Bool) (rest : Text) :
    scan last (Text.byteView rest) = scan last rest := by
  have hascii {a : Text} (ha : ∀ c ∈ a, isRefChar c = true) : Text.byteView a = a :=
    Text.byteView_of_isAscii fun c hc => isAscii_of_isRefChar (Or.inl (ha c hc))
  by_cases hend : rest.dropWhile isRefChar = []
  · rw [hascii (List.dropWhile_eq_nil_iff.mp hend)]
  -- what counts is the first character that cannot be in a reference
  obtain ⟨a, y, z, rfl, ha, hy⟩ := exists_stop hend
  rw [Text.byteView_append, hascii ha]
  generalize hview : Text.byteView (y :: z) = view
  cases hview ▸ Text.lead (y :: z) with
  | ascii _ _ hc => exact scan_congr last last hy hy Iff.rfl
  | wide _ d _ more hc hd =>
    -- of a wide character no byte can be in a reference, and none is a semicolon
    have hother {x : Char} (hx : isAscii x = false) : isRefChar x = false ∧ x ≠ ';' := by
      have hnot : ¬ (isRefChar x = true ∨ x = ';') := fun h => by
        rw [isAscii_of_isRefChar h] at hx
        cases hx
      rw [not_or, Bool.not_eq_true] at hnot
      exact hnot
    have hsemi : d = ';' ↔ y = ';' := by simp [(hother hc).2, (hother hd).2]
    exact scan_congr last last (hother hd).1 hy hsemi

/-- The bytes of a text are read like the text. -/
theorem matchBytes_utf8Bytes (rest : Text) (last : Bool) :
    matchBytes (Text.utf8Bytes ('&' :: rest)) last = some (scan last rest) := by
  rw [Text.utf8Bytes, List.flatMap_cons, utf8EncodeChar_of_isAscii (by decide),
    List.singleton_append, matchBytes_cons]
  exact congrArg some (scan_byteView last rest)

/-! ### The shape of a reference -/

/-- The shortest names of the table have two letters. -/
theorem two_le_of_lookup? {name : Text} {char : Char} (h : lookup? name = some char) :
    2 ≤ name.length := by
  have hall : named.all (fun entry => 2 ≤ entry.1.toList.length) = true := by decide +kernel
  rw [lookup?, Option.map_eq_some_iff] at h
  obtain ⟨entry, hfind, -⟩ := h
  have hlen := of_decide_eq_true (List.all_eq_true.mp hall entry (List.mem_of_find?_eq_some hfind))
  have hname := List.find?_some hfind
  rwa [← eq_of_beq hname]

/-- A named reference has three bytes at least. -/
theorem three_le_of_scanName {last : Bool} {length : Nat} {char : Char}
    (h : scanName last rest = .complete length char) : 3 ≤ length := by
  unfold scanName at h
  dsimp only at h
  split at h
  · cases h
  split at h
  · cases h
  next c hname =>
    split at h
    · cases h
    · have hlen := two_le_of_lookup? hname
      have hlength := (Scan.complete.inj h).1
      omega

theorem three_le_of_scan {last : Bool} {length : Nat} {char : Char}
    (h : scan last rest = .complete length char) : 3 ≤ length := by
  cases kind rest with
  | nil => exact three_le_of_scanName h
  | hash => cases last <;> cases h
  | hex x hx rest =>
    rw [scan_hex hx] at h
    have hlen := (scanNumber_length h).1
    omega
  | decimal c hx hX rest =>
    rw [scan_decimal hx hX] at h
    have hlen := (scanNumber_length h).1
    omega
  | named c hc rest =>
    rw [scan_named hc] at h
    exact three_le_of_scanName h

theorem lt_of_isAscii {b : UInt8} (h : isAscii (Char.ofUInt8 b) = true) : b < 0x80 :=
  UInt8.lt_iff_toNat_lt.mpr (isAscii_iff.mp h)

/-- A reference ends where the bytes do or before that, and all its bytes are ASCII characters. -/
theorem shape_of_scan {body : List UInt8} {last : Bool} {length : Nat} {char : Char}
    (h : scan last (Text.ofBytes body) = .complete length char) :
    3 ≤ length ∧ length ≤ body.length + 1 ∧ ∀ b ∈ body.take (length - 1), b < 0x80 := by
  have hlen := (scan_length h).2
  rw [Text.length_ofBytes] at hlen
  refine ⟨three_le_of_scan h, by omega, fun b hb => lt_of_isAscii (isAscii_of_isRefChar ?_)⟩
  apply mem_of_scan h
  rw [Text.ofBytes, ← List.map_take]
  exact List.mem_map_of_mem hb

/-- **Matching a reference is stable.** Of the bytes of a text it finds what `scan` finds in the
text. Of any byte string that starts with an `&` it has a result. A result other than that more
bytes are needed is the result for every longer byte string too, whether more may follow that or
not. At the end of all bytes no more are needed. A reference has at least three bytes; it lies
within the byte string, and all of it is ASCII. -/
theorem matchBytes_is_stable :
    (∀ rest last, matchBytes (Text.utf8Bytes ('&' :: rest)) last = some (scan last rest))
      ∧ ∀ body more : List UInt8, ∃ early final,
        matchBytes (0x26 :: body) false = some early
          ∧ matchBytes (0x26 :: body) true = some final
          ∧ (early ≠ .incomplete → ∀ last, matchBytes (0x26 :: body ++ more) last = some early)
          ∧ final ≠ .incomplete
          ∧ ∀ last length char, matchBytes (0x26 :: body) last = some (.complete length char) →
            3 ≤ length ∧ length ≤ (0x26 :: body).length
              ∧ ∀ b ∈ (0x26 :: body).take length, b < 0x80 := by
  refine ⟨matchBytes_utf8Bytes, fun body more => ?_⟩
  refine ⟨_, _, matchBytes_cons _ body false, matchBytes_cons _ body true, ?_, scan_last _, ?_⟩
  · intro hearly last
    rw [List.cons_append, matchBytes_cons, Text.ofBytes_append, scan_append hearly last]
  · intro last length char h
    rw [matchBytes_cons] at h
    obtain ⟨hmin, hmax, hascii⟩ := shape_of_scan (Option.some.inj h)
    refine ⟨hmin, hmax, fun b hb => ?_⟩
    rw [List.take_cons (by omega), List.mem_cons] at hb
    rcases hb with rfl | hb
    · decide
    · exact hascii b hb

/-- The name in `&lt=` is over, and a `;` that comes later does not belong to it. -/
theorem early_match_stands :
    matchBytes [0x26, 0x6c, 0x74, 0x3d] false = some (.complete 3 '<')
      ∧ matchBytes [0x26, 0x6c, 0x74, 0x3d, 0x3b] true = some (.complete 3 '<') := by
  obtain ⟨early, -, hmatch, -, hstable, -⟩ := matchBytes_is_stable.2 [0x6c, 0x74, 0x3d] [0x3b]
  have hearly : matchBytes [0x26, 0x6c, 0x74, 0x3d] false = some (.complete 3 '<') := by
    decide +kernel
  cases Option.some.inj (hmatch.symm.trans hearly)
  exact ⟨hmatch, hstable (by decide) true⟩

end Html.CharRef

end SafeMarkup
