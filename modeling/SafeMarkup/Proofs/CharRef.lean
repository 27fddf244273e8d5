import Mathlib.Data.List.TakeWhile
import SafeMarkup.Html.CharRef

/-!
# Where a reference ends

A reference is a run of letters, digits and `#`, and a `;` that may close it. So what an `&` turns
out to be depends on the run after it and on whether a `;` follows the run, and on nothing beyond
that (`scan_congr`). This gives what the rest of the development needs: a decision taken early is
never revised (`scan_append`), a reference that is still open consists of the run alone
(`isRefChar_of_incomplete`), and a `;` written after it completes it (`scan_semicolon`).
-/

namespace SafeMarkup.Html.CharRef

/-- May `c` stand between the `&` and the `;` of a reference? -/
def isRefChar (c : Char) : Bool := c.isAlphanum || c == '#'

theorem isRefChar_of_isAlphanum {c : Char} (h : c.isAlphanum = true) : isRefChar c = true := by
  simp [isRefChar, h]

theorem isAlphanum_of_isDigit {c : Char} (h : c.isDigit = true) : c.isAlphanum = true := by
  simp [Char.isAlphanum, h]

theorem isAlphanum_of_isHexDigit {c : Char} (h : isHexDigit c = true) : c.isAlphanum = true := by
  have hclasses : (c.isUpper || c.isLower || c.isDigit) = true → c.isAlphanum = true := id
  apply hclasses
  simp only [isHexDigit, Bool.or_eq_true, Bool.and_eq_true, decide_eq_true_eq] at h
  rcases h with (hdigit | ⟨hlow, hhigh⟩) | ⟨hlow, hhigh⟩
  · rw [hdigit, Bool.or_true]
  · have hlower : c.isLower = true :=
      Bool.and_eq_true_iff.mpr
        ⟨decide_eq_true hlow, decide_eq_true (UInt32.le_trans hhigh (by decide))⟩
    rw [hlower, Bool.or_true, Bool.true_or]
  · have hupper : c.isUpper = true :=
      decide_eq_true ⟨hlow, UInt32.le_trans hhigh (by decide)⟩
    rw [hupper, Bool.true_or, Bool.true_or]

/-! ### Runs

`p` is the class of characters of a run: digits, hexadecimal digits, or letters and digits. -/

section Runs

variable {p : Char → Bool} {a z : Text} {y : Char}

theorem takeWhile_append_stop (hy : p y = false) : (a ++ y :: z).takeWhile p = a.takeWhile p := by
  induction a with
  | nil => simp [hy]
  | cons c a ih => by_cases hc : p c <;> simp [hc, ih]

/-- What it leaves goes on with what follows. -/
theorem dropWhile_append_stop (hy : p y = false) :
    (a ++ y :: z).dropWhile p = a.dropWhile p ++ y :: z := by
  induction a with
  | nil => simp [hy]
  | cons c a ih => by_cases hc : p c <;> simp [hc, ih]

/-- A text that does not consist of the class has a first character that is not of it. -/
theorem exists_stop {t : Text} (h : t.dropWhile p ≠ []) :
    ∃ a y z, t = a ++ y :: z ∧ (∀ c ∈ a, p c = true) ∧ p y = false := by
  cases hd : t.dropWhile p with
  | nil => exact absurd hd h
  | cons y z =>
    refine ⟨t.takeWhile p, y, z, ?_, fun c hc => List.mem_takeWhile_imp hc, ?_⟩
    · rw [← hd, List.takeWhile_append_dropWhile]
    · have hy := List.head_dropWhile_not p h
      simpa [hd] using hy

end Runs

/-! ### The closing `;` -/

theorem semicolon_cons {c : Char} (h : c ≠ ';') (more : Text) : semicolon (c :: more) = 0 := by
  rw [semicolon]
  intro more' e
  exact h (List.cons.inj e).1

/-- Whether a semicolon comes next is seen from one character. -/
theorem semicolon_cons_append (c : Char) (more z : Text) :
    semicolon (c :: more) = semicolon (c :: (more ++ z)) := by
  by_cases h : c = ';'
  · subst h
    rfl
  · rw [semicolon_cons h, semicolon_cons h]

/-- Without a semicolon in the text there is none after a run. -/
theorem semicolon_dropWhile {p : Char → Bool} {a : Text} (ha : ';' ∉ a) :
    semicolon (a.dropWhile p) = 0 := by
  cases hd : a.dropWhile p with
  | nil => rfl
  | cons c more =>
    have hmem : c ∈ a := (List.dropWhile_sublist p).subset (by rw [hd]; exact List.mem_cons_self)
    exact semicolon_cons (fun e => ha (e ▸ hmem)) more

/-! ### Numeric references -/

section Number

variable {radix opening : Nat} {isDigit : Char → Bool}

/-- Only the digits matter, and whether a `;` follows them. -/
theorem scanNumber_congr (last last' : Bool) {a z z' : Text} {y y' : Char}
    (hy : isDigit y = false) (hy' : isDigit y' = false) (hsemi : y = ';' ↔ y' = ';') :
    scanNumber last radix opening isDigit (a ++ y :: z)
      = scanNumber last' radix opening isDigit (a ++ y' :: z') := by
  have hclose : semicolon (a.dropWhile isDigit ++ y :: z)
      = semicolon (a.dropWhile isDigit ++ y' :: z') := by
    cases a.dropWhile isDigit with
    | nil => by_cases h : y = ';' <;> simp_all [semicolon]
    | cons c more => by_cases h : c = ';' <;> simp_all [semicolon]
  simp only [scanNumber, takeWhile_append_stop hy, takeWhile_append_stop hy',
    dropWhile_append_stop hy, dropWhile_append_stop hy', hclose]
  simp

/-- A number that has been decided on is not changed by more text. -/
theorem scanNumber_append {rest : Text}
    (h : scanNumber false radix opening isDigit rest ≠ .incomplete) (last : Bool) (more : Text) :
    scanNumber last radix opening isDigit (rest ++ more)
      = scanNumber false radix opening isDigit rest := by
  have hstop : rest.dropWhile isDigit ≠ [] := by
    intro hnil
    exact h (by simp [scanNumber, hnil])
  obtain ⟨a, y, z, rfl, -, hy⟩ := exists_stop hstop
  rw [List.append_assoc, List.cons_append]
  exact scanNumber_congr last false hy hy Iff.rfl

/-- At the end of the text it is as if something other than a `;` followed. -/
theorem scanNumber_end (last : Bool) {a z : Text} {y : Char} (ha : ';' ∉ a)
    (hy : isDigit y = false) (hsemi : y ≠ ';') :
    scanNumber true radix opening isDigit a
      = scanNumber last radix opening isDigit (a ++ y :: z) := by
  have hclose : semicolon (a.dropWhile isDigit) = 0 := semicolon_dropWhile ha
  have hclose' : semicolon (a.dropWhile isDigit ++ y :: z) = 0 := by
    cases hd : a.dropWhile isDigit with
    | nil => simp [semicolon_cons hsemi]
    | cons c more => rw [List.cons_append, ← semicolon_cons_append, ← hd, hclose]
  simp only [scanNumber, takeWhile_append_stop hy, dropWhile_append_stop hy, hclose, hclose']
  simp

/-- A number that runs up to the end of the text is not decided. -/
theorem scanNumber_eq_incomplete_iff {rest : Text} :
    scanNumber false radix opening isDigit rest = .incomplete ↔ ∀ c ∈ rest, isDigit c = true := by
  rw [← List.dropWhile_eq_nil_iff]
  constructor
  · intro h
    by_cases hd : rest.dropWhile isDigit = []
    · exact hd
    · simp [scanNumber, hd] at h
      split at h <;> simp at h
  · intro h
    simp [scanNumber, h]

/-- A number that is only decided at the end of the text is all of the text, and a semicolon after
it belongs to it. -/
theorem scanNumber_semicolon {rest : Text} {length : Nat} {char : Char}
    (hrest : ∀ c ∈ rest, isDigit c = true) (hsemi : isDigit ';' = false)
    (h : scanNumber true radix opening isDigit rest = .complete length char) :
    length = opening + rest.length
      ∧ ∀ last more, scanNumber last radix opening isDigit (rest ++ ';' :: more)
        = .complete (length + 1) char := by
  -- the run of digits is all of the text
  have htake : rest.takeWhile isDigit = rest := List.takeWhile_eq_self_iff.mpr hrest
  have hdrop : rest.dropWhile isDigit = [] := List.dropWhile_eq_nil_iff.mpr hrest
  simp only [scanNumber, htake, hdrop] at h
  by_cases hnil : rest.isEmpty
  · simp [hnil] at h
  · simp only [List.isEmpty_nil, Bool.not_true, Bool.and_false, hnil, semicolon] at h
    simp only [Bool.false_eq_true, ↓reduceIte, Scan.complete.injEq] at h
    refine ⟨by omega, fun last more => ?_⟩
    simp only [scanNumber, takeWhile_append_stop hsemi, dropWhile_append_stop hsemi, htake, hdrop,
      hnil, semicolon]
    simp only [List.nil_append, List.isEmpty_cons, Bool.false_and, Bool.false_eq_true,
      ↓reduceIte, Scan.complete.injEq]
    exact ⟨by simp; omega, h.2⟩

end Number

/-! ### Named references -/

/-- The table has no empty name and no long names. -/
theorem lookup?_eq_none {name : Text} (h : name = [] ∨ nameBound ≤ name.length) :
    lookup? name = none := by
  have hall : named.all (fun entry =>
      0 < entry.1.toList.length ∧ entry.1.toList.length < nameBound) = true := by
    decide +kernel
  rw [lookup?, Option.map_eq_none_iff, List.find?_eq_none]
  intro entry hmem heq
  have hlen := of_decide_eq_true (List.all_eq_true.mp hall entry hmem)
  rw [eq_of_beq heq] at hlen
  rcases h with rfl | h
  · exact Nat.lt_irrefl 0 hlen.1
  · omega

/-- Only the name matters, and whether a `;` follows it. -/
theorem scanName_congr (last last' : Bool) {a z z' : Text} {y y' : Char}
    (hy : y.isAlphanum = false) (hy' : y'.isAlphanum = false) (hsemi : y = ';' ↔ y' = ';') :
    scanName last (a ++ y :: z) = scanName last' (a ++ y' :: z') := by
  have hclose : semicolon (a.dropWhile Char.isAlphanum ++ y :: z)
      = semicolon (a.dropWhile Char.isAlphanum ++ y' :: z') := by
    cases a.dropWhile Char.isAlphanum with
    | nil => by_cases h : y = ';' <;> simp_all [semicolon]
    | cons c more => by_cases h : c = ';' <;> simp_all [semicolon]
  simp only [scanName, takeWhile_append_stop hy, takeWhile_append_stop hy',
    dropWhile_append_stop hy, dropWhile_append_stop hy', hclose]
  simp

/-- A name that is too long for the table is no reference. -/
theorem scanName_eq_absent {last : Bool} {rest : Text}
    (h : nameBound ≤ (rest.takeWhile Char.isAlphanum).length) : scanName last rest = .absent := by
  have hlt : ¬ (rest.takeWhile Char.isAlphanum).length < nameBound := by omega
  simp [scanName, lookup?_eq_none (Or.inr h), hlt]

/-- A name that has been decided on is not changed by more text. -/
theorem scanName_append {rest : Text} (h : scanName false rest ≠ .incomplete) (last : Bool)
    (more : Text) : scanName last (rest ++ more) = scanName false rest := by
  by_cases hend : rest.dropWhile Char.isAlphanum = []
  · -- the name may go on, but it is too long already
    have hself : rest.takeWhile Char.isAlphanum = rest := by
      simpa [List.dropWhile_eq_nil_iff] using hend
    have hlong : nameBound ≤ rest.length := by
      rcases Nat.lt_or_ge rest.length nameBound with hlt | hge
      · exact absurd (by simp [scanName, hend, hself, hlt]) h
      · exact hge
    have hpos : ∀ c ∈ rest, c.isAlphanum = true := by simpa using hself
    have hlong' : nameBound ≤ ((rest ++ more).takeWhile Char.isAlphanum).length := by
      rw [List.takeWhile_append_of_pos hpos, List.length_append]
      omega
    rw [scanName_eq_absent hlong', scanName_eq_absent (by rwa [hself])]
  · obtain ⟨a, y, z, rfl, -, hy⟩ := exists_stop hend
    rw [List.append_assoc, List.cons_append]
    exact scanName_congr last false hy hy Iff.rfl

/-- At the end of the text a name ends as if something followed that is neither part of it nor a
semicolon. -/
theorem scanName_end (last : Bool) {a z : Text} {y : Char} (ha : ';' ∉ a)
    (hy : y.isAlphanum = false) (hsemi : y ≠ ';') :
    scanName true a = scanName last (a ++ y :: z) := by
  have hclose : semicolon (a.dropWhile Char.isAlphanum) = 0 := semicolon_dropWhile ha
  have hclose' : semicolon (a.dropWhile Char.isAlphanum ++ y :: z) = 0 := by
    cases hd : a.dropWhile Char.isAlphanum with
    | nil => simp [semicolon_cons hsemi]
    | cons c more => rw [List.cons_append, ← semicolon_cons_append, ← hd, hclose]
  simp only [scanName, takeWhile_append_stop hy, dropWhile_append_stop hy, hclose, hclose']
  simp

/-- A name that runs up to the end of the text is not decided, unless it is too long. -/
theorem scanName_eq_incomplete_iff {rest : Text} :
    scanName false rest = .incomplete
      ↔ (∀ c ∈ rest, c.isAlphanum = true) ∧ rest.length < nameBound := by
  rw [← List.dropWhile_eq_nil_iff]
  constructor
  · intro h
    by_cases hd : rest.dropWhile Char.isAlphanum = []
    · have hself : rest.takeWhile Char.isAlphanum = rest := by
        simpa [List.dropWhile_eq_nil_iff] using hd
      refine ⟨hd, ?_⟩
      rcases Nat.lt_or_ge rest.length nameBound with hlt | hge
      · exact hlt
      · rw [scanName_eq_absent (by rwa [hself])] at h
        cases h
    · -- a character ends the name, so it is decided
      have hbusy : (rest.dropWhile Char.isAlphanum).isEmpty = false :=
        Bool.eq_false_iff.mpr fun he => hd (List.isEmpty_iff.mp he)
      simp only [scanName, hbusy, Bool.false_and, Bool.false_eq_true, ↓reduceIte] at h
      split at h
      · cases h
      · split at h <;> cases h
  · rintro ⟨hd, hlt⟩
    have hself : rest.takeWhile Char.isAlphanum = rest := by
      simpa [List.dropWhile_eq_nil_iff] using hd
    simp [scanName, hd, hself, hlt]

/-- A name that is only decided at the end of the text is all of the text, and a semicolon after it
belongs to it. -/
theorem scanName_semicolon {rest : Text} {length : Nat} {char : Char}
    (hrest : ∀ c ∈ rest, c.isAlphanum = true)
    (h : scanName true rest = .complete length char) :
    length = 1 + rest.length ∧ ∀ last more,
      scanName last (rest ++ ';' :: more) = .complete (length + 1) char := by
  have hsemi : Char.isAlphanum ';' = false := by decide
  have htake : rest.takeWhile Char.isAlphanum = rest := List.takeWhile_eq_self_iff.mpr hrest
  have hdrop : rest.dropWhile Char.isAlphanum = [] := List.dropWhile_eq_nil_iff.mpr hrest
  simp only [scanName, htake, hdrop, Bool.not_true, Bool.and_false, Bool.false_and,
    Bool.false_eq_true, ↓reduceIte] at h
  -- the name is looked up as a whole, with or without the semicolon
  cases hname : lookup? rest with
  | none => simp [hname] at h
  | some c =>
    have hscan : length = 1 + rest.length ∧ c = char := by
      simp only [hname, semicolon] at h
      split at h
      · cases h
      · simp only [Scan.complete.injEq] at h
        exact ⟨by omega, h.2⟩
    refine ⟨hscan.1, fun last more => ?_⟩
    simp only [scanName, takeWhile_append_stop hsemi, dropWhile_append_stop hsemi, htake, hdrop,
      hname, semicolon]
    simp [hscan.1, hscan.2]

/-! ### All references -/

/-- How the text after an `&` starts. -/
inductive Kind : Text → Prop where
  | nil : Kind []
  | hash : Kind ['#']
  | hex (x : Char) (hx : x = 'x' ∨ x = 'X') (rest : Text) : Kind ('#' :: x :: rest)
  | decimal (c : Char) (hx : c ≠ 'x') (hX : c ≠ 'X') (rest : Text) : Kind ('#' :: c :: rest)
  | named (c : Char) (hc : c ≠ '#') (rest : Text) : Kind (c :: rest)

/-- Every text is of one of these kinds. -/
theorem kind (rest : Text) : Kind rest := by
  rcases rest with _ | ⟨c, rest⟩
  · exact .nil
  by_cases hc : c = '#'
  · subst hc
    rcases rest with _ | ⟨d, rest⟩
    · exact .hash
    by_cases hx : d = 'x' ∨ d = 'X'
    · exact .hex d hx rest
    · rw [not_or] at hx
      exact .decimal d hx.1 hx.2 rest
  · exact .named c hc rest

theorem scan_nil : scan true [] = .absent := by
  simp [scan, scanName, lookup?_eq_none]

theorem scan_hex {x : Char} (hx : x = 'x' ∨ x = 'X') (last : Bool) (rest : Text) :
    scan last ('#' :: x :: rest) = scanNumber last 16 3 isHexDigit rest := by
  rcases hx with rfl | rfl <;> rfl

/-- After any other `#` a decimal number is read. -/
theorem scan_decimal {c : Char} (hx : c ≠ 'x') (hX : c ≠ 'X') (last : Bool) (rest : Text) :
    scan last ('#' :: c :: rest) = scanNumber last 10 2 Char.isDigit (c :: rest) := by
  rw [scan]
  · intro more h
    exact hx (List.cons.inj h).1
  · intro more h
    exact hX (List.cons.inj h).1

/-- After anything else a name is read. -/
theorem scan_named {c : Char} (hc : c ≠ '#') (last : Bool) (rest : Text) :
    scan last (c :: rest) = scanName last (c :: rest) := by
  rw [scan]
  all_goals
    intros
    simp_all

section Stop

variable {c : Char} (h : isRefChar c = false)
include h

theorem isAlphanum_of_stop : c.isAlphanum = false := by
  simpa [isRefChar] using (Bool.or_eq_false_iff.mp h).1

theorem isDigit_of_stop : c.isDigit = false :=
  Bool.eq_false_iff.mpr fun hd => by simp [isAlphanum_of_isDigit hd, isRefChar] at h

theorem isHexDigit_of_stop : isHexDigit c = false :=
  Bool.eq_false_iff.mpr fun hd => by simp [isAlphanum_of_isHexDigit hd, isRefChar] at h

theorem ne_of_stop {d : Char} (hd : isRefChar d = true) : c ≠ d :=
  fun e => by simp [e, hd] at h

end Stop

/-- **What an `&` turns out to be** depends on the run of letters, digits and `#` after it and on
whether a `;` follows this run. -/
theorem scan_congr (last last' : Bool) {a z z' : Text} {y y' : Char}
    (hy : isRefChar y = false) (hy' : isRefChar y' = false) (hsemi : y = ';' ↔ y' = ';') :
    scan last (a ++ y :: z) = scan last' (a ++ y' :: z') := by
  -- each kind of run has its own reader, and each reader is decided by its run
  cases kind a with
  | nil =>
    rw [List.nil_append, List.nil_append, scan_named (ne_of_stop hy (by decide)),
      scan_named (ne_of_stop hy' (by decide))]
    exact scanName_congr (a := []) last last' (isAlphanum_of_stop hy) (isAlphanum_of_stop hy') hsemi
  | hash =>
    rw [List.cons_append, List.cons_append, List.nil_append, List.nil_append,
      scan_decimal (ne_of_stop hy (by decide)) (ne_of_stop hy (by decide)),
      scan_decimal (ne_of_stop hy' (by decide)) (ne_of_stop hy' (by decide))]
    exact scanNumber_congr (a := []) last last' (isDigit_of_stop hy) (isDigit_of_stop hy') hsemi
  | hex x hx rest =>
    rw [List.cons_append, List.cons_append, List.cons_append, List.cons_append, scan_hex hx,
      scan_hex hx]
    exact scanNumber_congr last last' (isHexDigit_of_stop hy) (isHexDigit_of_stop hy') hsemi
  | decimal c hx hX rest =>
    rw [List.cons_append, List.cons_append, List.cons_append, List.cons_append,
      scan_decimal hx hX, scan_decimal hx hX]
    exact scanNumber_congr (a := c :: rest) last last' (isDigit_of_stop hy) (isDigit_of_stop hy')
      hsemi
  | named c hc rest =>
    rw [List.cons_append, List.cons_append, scan_named hc, scan_named hc]
    exact scanName_congr (a := c :: rest) last last' (isAlphanum_of_stop hy)
      (isAlphanum_of_stop hy') hsemi

/-- **A decision is never revised.** What has been decided before the end of the text does not
depend on what follows the text. -/
theorem scan_append {rest : Text} (h : scan false rest ≠ .incomplete) (last : Bool) (more : Text) :
    scan last (rest ++ more) = scan false rest := by
  -- without a character after the `&` or the `#` nothing is decided, so this case does not arise
  cases kind rest with
  | nil => exact absurd rfl h
  | hash => exact absurd rfl h
  | hex x hx rest =>
    rw [scan_hex hx] at h
    rw [List.cons_append, List.cons_append, scan_hex hx, scan_hex hx]
    exact scanNumber_append h last more
  | decimal c hx hX rest =>
    rw [scan_decimal hx hX] at h
    rw [List.cons_append, List.cons_append, scan_decimal hx hX, scan_decimal hx hX]
    exact scanNumber_append h last more
  | named c hc rest =>
    rw [scan_named hc] at h
    rw [List.cons_append, scan_named hc, scan_named hc]
    exact scanName_append h last more

/-- At the end of the text it is as if something other than a reference or a `;` followed. -/
theorem scan_end (last : Bool) {a z : Text} {y : Char} (ha : ';' ∉ a) (hy : isRefChar y = false)
    (hsemi : y ≠ ';') : scan true a = scan last (a ++ y :: z) := by
  -- the character that is put at the end stops every reader
  cases kind a with
  | nil =>
    rw [List.nil_append, scan_named (ne_of_stop hy (by decide))]
    exact scanName_end (a := []) last ha (isAlphanum_of_stop hy) hsemi
  | hash =>
    rw [List.cons_append, List.nil_append,
      scan_decimal (ne_of_stop hy (by decide)) (ne_of_stop hy (by decide))]
    exact scanNumber_end (a := []) last (by simp) (isDigit_of_stop hy) hsemi
  | hex x hx rest =>
    rw [List.cons_append, List.cons_append, scan_hex hx, scan_hex hx]
    exact scanNumber_end last (by simp_all) (isHexDigit_of_stop hy) hsemi
  | decimal c hx hX rest =>
    rw [List.cons_append, List.cons_append, scan_decimal hx hX, scan_decimal hx hX]
    exact scanNumber_end (a := c :: rest) last (by simp_all) (isDigit_of_stop hy) hsemi
  | named c hc rest =>
    rw [List.cons_append, scan_named hc, scan_named hc]
    exact scanName_end (a := c :: rest) last ha (isAlphanum_of_stop hy) hsemi

/-- **An open reference** consists of the run alone, and a `;` completes it if it is one. -/
theorem scan_incomplete {rest : Text} (h : scan false rest = .incomplete) :
    (∀ c ∈ rest, isRefChar c = true) ∧ ∀ length char, scan true rest = .complete length char →
      length = 1 + rest.length ∧ ∀ last more,
        scan last (rest ++ ';' :: more) = .complete (length + 1) char := by
  -- the run is all of the text in each case, or the text would go on after it
  cases kind rest with
  | nil => exact ⟨by simp, fun length char h => absurd h (by simp [scan_nil])⟩
  | hash => exact ⟨List.all_eq_true.mp rfl, fun length char h => by cases h⟩
  | hex x hx rest =>
    rw [scan_hex hx, scanNumber_eq_incomplete_iff] at h
    have hrun : ∀ c ∈ rest, isRefChar c = true :=
      fun c hc => isRefChar_of_isAlphanum (isAlphanum_of_isHexDigit (h c hc))
    have hletter : isRefChar x = true := by rcases hx with rfl | rfl <;> decide
    refine ⟨by simpa [hletter] using ⟨by decide, hrun⟩, fun length char hscan => ?_⟩
    rw [scan_hex hx] at hscan
    obtain ⟨hlen, hclose⟩ := scanNumber_semicolon h (by decide) hscan
    refine ⟨by simp [hlen]; omega, fun last more => ?_⟩
    rw [List.cons_append, List.cons_append, scan_hex hx, hclose]
  | decimal c hx hX rest =>
    rw [scan_decimal hx hX, scanNumber_eq_incomplete_iff] at h
    have hrun : ∀ d ∈ c :: rest, isRefChar d = true :=
      fun d hd => isRefChar_of_isAlphanum (isAlphanum_of_isDigit (h d hd))
    refine ⟨List.forall_mem_cons.mpr ⟨by decide, hrun⟩, fun length char hscan => ?_⟩
    rw [scan_decimal hx hX] at hscan
    obtain ⟨hlen, hclose⟩ := scanNumber_semicolon h (by decide) hscan
    refine ⟨by simp [hlen]; omega, fun last more => ?_⟩
    have := hclose last more
    rwa [List.cons_append, List.cons_append, scan_decimal hx hX]
  | named c hc rest =>
    rw [scan_named hc, scanName_eq_incomplete_iff] at h
    refine ⟨fun d hd => isRefChar_of_isAlphanum (h.1 d hd), fun length char hscan => ?_⟩
    rw [scan_named hc] at hscan
    obtain ⟨hlen, hclose⟩ := scanName_semicolon h.1 hscan
    refine ⟨hlen, fun last more => ?_⟩
    have := hclose last more
    rwa [List.cons_append, scan_named hc]

/-! ### Length -/

theorem semicolon_le (t : Text) : semicolon t ≤ t.length := by
  unfold semicolon
  split <;> simp

theorem takeWhile_semicolon_le (p : Char → Bool) (rest : Text) :
    (rest.takeWhile p).length + semicolon (rest.dropWhile p) ≤ rest.length := by
  have hlen := congrArg List.length (List.takeWhile_append_dropWhile (p := p) (l := rest))
  have hle := semicolon_le (rest.dropWhile p)
  rw [List.length_append] at hlen
  omega

/-- A number has at least one digit, and ends within the text. -/
theorem scanNumber_length {last : Bool} {radix opening length : Nat} {isDigit : Char → Bool}
    {rest : Text} {char : Char}
    (h : scanNumber last radix opening isDigit rest = .complete length char) :
    opening < length ∧ length ≤ opening + rest.length := by
  have hle := takeWhile_semicolon_le isDigit rest
  simp only [scanNumber] at h
  split at h
  · cases h
  · split at h
    · cases h
    · next hne =>
      have hpos : 0 < (rest.takeWhile isDigit).length := by
        rw [List.length_pos_iff]
        exact fun e => hne (List.isEmpty_iff.mpr e)
      rw [← (Scan.complete.inj h).1]
      omega

/-- A name ends within the text. -/
theorem scanName_length {last : Bool} {rest : Text} {length : Nat} {char : Char}
    (h : scanName last rest = .complete length char) :
    0 < length ∧ length ≤ 1 + rest.length := by
  have hle := takeWhile_semicolon_le Char.isAlphanum rest
  simp only [scanName] at h
  split at h
  · cases h
  · split at h
    · cases h
    · split at h
      · cases h
      · rw [← (Scan.complete.inj h).1]
        omega

/-- A reference consists of the `&` and of characters of the text after it. -/
theorem scan_length {last : Bool} {rest : Text} {length : Nat} {char : Char}
    (h : scan last rest = .complete length char) : 0 < length ∧ length ≤ 1 + rest.length := by
  -- the opening, `#` or `#x`, is counted by the reader
  cases kind rest with
  | nil =>
    have hscan : scanName last [] = .complete length char := h
    exact scanName_length hscan
  | hash => cases last <;> cases h
  | hex x hx rest =>
    rw [scan_hex hx] at h
    have := scanNumber_length h
    simp only [List.length_cons]
    omega
  | decimal c hx hX rest =>
    rw [scan_decimal hx hX] at h
    have := scanNumber_length h
    simp only [List.length_cons] at this ⊢
    omega
  | named c hc rest =>
    rw [scan_named hc] at h
    exact scanName_length h

/-- A reference consists of letters, digits and `#`, and of the `;` that may close it. -/
theorem mem_of_scan {last : Bool} {rest : Text} {length : Nat} {char : Char}
    (h : scan last rest = .complete length char) :
    ∀ c ∈ rest.take (length - 1), isRefChar c = true ∨ c = ';' := by
  have hrun : ∀ c ∈ rest.takeWhile isRefChar, isRefChar c = true :=
    List.all_eq_true.mp List.all_takeWhile
  by_cases hend : rest.dropWhile isRefChar = []
  · have hall : ∀ c ∈ rest, isRefChar c = true := List.dropWhile_eq_nil_iff.mp hend
    exact fun c hc => Or.inl (hall c (List.mem_of_mem_take hc))
  obtain ⟨a, y, z, rfl, ha, hy⟩ := exists_stop hend
  -- at most the `;` that comes right after the run belongs to the reference
  intro c hc
  by_cases hsemi : y = ';'
  · subst hsemi
    have hscan : scan last (a ++ ';' :: z) = scan last (a ++ [';']) :=
      scan_congr last last hy hy Iff.rfl
    rw [hscan] at h
    have hlen := (scan_length h).2
    rw [List.length_append, List.length_singleton] at hlen
    have hmem : c ∈ (a ++ [';']) := by
      rw [List.append_cons, List.take_append_of_le_length (by simp; omega)] at hc
      exact List.mem_of_mem_take hc
    rcases List.mem_append.mp hmem with hmem | hmem
    · exact Or.inl (ha c hmem)
    · exact Or.inr (List.mem_singleton.mp hmem)
  · have hsemi' : ';' ∉ a := fun hmem => absurd (ha _ hmem) (by decide)
    rw [← scan_end last hsemi' hy hsemi] at h
    have hlen := (scan_length h).2
    rw [List.take_append_of_le_length (by omega)] at hc
    exact Or.inl (ha c (List.mem_of_mem_take hc))

end SafeMarkup.Html.CharRef
