import SafeMarkup.Text.Basic

/-!
# Positions that count bytes

A text is kept in its UTF-8 form, and positions in it count bytes. Scans look at one byte after the
other, also from the middle of a character on. A text itself can be cut between two characters only.
Access beyond the end, or a cut inside a character, has no result.
-/

namespace SafeMarkup

namespace Text

/-- The bytes, each as the character with its number. -/
def ofBytes (bytes : List UInt8) : Text := bytes.map Char.ofUInt8

/-- What a scan sees of the text: its bytes. -/
def byteView (t : Text) : Text := ofBytes (utf8Bytes t)

/-- The part from position `start` on. -/
def sliceFrom? (t : Text) (start : Nat) : Option Text :=
  if start ≤ t.length then some (t.drop start) else none

/-- The part from position `start` up to position `stop`. -/
def slice? (t : Text) (start stop : Nat) : Option Text :=
  if start ≤ stop ∧ stop ≤ t.length then some ((t.take stop).drop start) else none

/-- Cuts a text after its first `n` bytes. -/
def cutAt? : Text → Nat → Option (Text × Text)
  | t, 0 => some ([], t)
  | [], _ + 1 => none
  | c :: t, n + 1 =>
    if c.utf8Size ≤ n + 1 then
      (cutAt? t (n + 1 - c.utf8Size)).map fun (a, b) => (c :: a, b)
    else none

/-- The part of a text between two positions. -/
def between? (t : Text) (start stop : Nat) : Option Text :=
  if start ≤ stop then do
    let (_, rest) ← t.cutAt? start
    let (part, _) ← rest.cutAt? (stop - start)
    return part
  else none

/-- The sum of two sizes. There is none if it is too large for a size. -/
def sum? (a b : Nat) : Option Nat := if a + b < USize.size then some (a + b) else none

/-- The difference of two sizes. There is none if the second one is larger. -/
def difference? (a b : Nat) : Option Nat := if b ≤ a then some (a - b) else none

/-- The last `size` bytes of a text. -/
def last? (t : Text) (size : Nat) : Option Text := do
  let cut ← difference? t.utf8Size size
  let (_, rest) ← t.cutAt? cut
  return rest

/-! ### Sizes -/

@[simp] theorem utf8Size_nil : utf8Size [] = 0 := rfl

theorem utf8Size_cons (c : Char) (t : Text) : utf8Size (c :: t) = c.utf8Size + utf8Size t := by
  rw [utf8Size, utf8Bytes, List.flatMap_cons, List.length_append, String.length_utf8EncodeChar]
  rfl

theorem utf8Size_pos {t : Text} (h : t ≠ []) : 0 < utf8Size t := by
  cases t with
  | nil => exact absurd rfl h
  | cons c t =>
    have hc := c.utf8Size_pos
    rw [utf8Size_cons]
    omega

@[simp] theorem length_ofBytes (bytes : List UInt8) : (ofBytes bytes).length = bytes.length :=
  List.length_map _

@[simp] theorem length_byteView (t : Text) : (byteView t).length = utf8Size t :=
  length_ofBytes _

theorem ofBytes_append (a b : List UInt8) : ofBytes (a ++ b) = ofBytes a ++ ofBytes b :=
  List.map_append

@[simp] theorem byteView_nil : byteView [] = [] := rfl

theorem byteView_append (a b : Text) : byteView (a ++ b) = byteView a ++ byteView b := by
  rw [byteView, utf8Bytes, List.flatMap_append]
  exact ofBytes_append _ _

theorem byteView_cons (c : Char) (t : Text) : byteView (c :: t) = byteView [c] ++ byteView t :=
  byteView_append [c] t

/-! ### Slices -/

theorem sliceFrom?_append (a b : Text) : (a ++ b).sliceFrom? a.length = some b := by
  rw [sliceFrom?, if_pos (by simp), List.drop_left]

theorem slice?_append (a b t : Text) :
    (a ++ (b ++ t)).slice? a.length (a.length + b.length) = some b := by
  have hin : a.length + b.length ≤ (a ++ (b ++ t)).length := by
    rw [List.length_append, List.length_append]
    omega
  rw [slice?, if_pos ⟨by omega, hin⟩, List.take_length_add_append, List.drop_left, List.take_left]

/-- Slices of the bytes that start and end with a character. -/
theorem sliceFrom?_byteView (a b : Text) :
    (byteView (a ++ b)).sliceFrom? (utf8Size a) = some (byteView b) := by
  rw [byteView_append, ← length_byteView, sliceFrom?_append]

theorem slice?_byteView (a b t : Text) :
    (byteView (a ++ (b ++ t))).slice? (utf8Size a) (utf8Size (a ++ b)) = some (byteView b) := by
  rw [byteView_append, byteView_append, utf8Size_append, ← length_byteView a, ← length_byteView b,
    slice?_append]

/-! ### Cuts -/

/-- **A text can be cut between two of its characters.** -/
theorem cutAt?_append (a b : Text) : cutAt? (a ++ b) (utf8Size a) = some (a, b) := by
  induction a with
  | nil =>
    show cutAt? b 0 = _
    rw [cutAt?]
  | cons c a ih =>
    obtain ⟨n, hn⟩ : ∃ n, utf8Size (c :: a) = n + 1 :=
      Nat.exists_eq_succ_of_ne_zero (Nat.ne_of_gt (utf8Size_pos (List.cons_ne_nil c a)))
    have hsum := utf8Size_cons c a
    have hrest : n + 1 - c.utf8Size = utf8Size a := by omega
    rw [List.cons_append, hn, cutAt?, if_pos (by omega), hrest, ih]
    rfl

/-- **There are no other cuts.** -/
theorem eq_append_of_cutAt? {t a b : Text} {n : Nat} (h : cutAt? t n = some (a, b)) :
    t = a ++ b ∧ n = utf8Size a := by
  induction t generalizing n a with
  | nil =>
    cases n with
    | zero => cases h; exact ⟨rfl, rfl⟩
    | succ n => cases h
  | cons c t ih =>
    cases n with
    | zero => cases h; exact ⟨rfl, rfl⟩
    | succ n =>
      rw [cutAt?] at h
      split at h
      · next hle =>
        obtain ⟨⟨a', b'⟩, hcut, heq⟩ := Option.map_eq_some_iff.mp h
        cases heq
        obtain ⟨rfl, hsize⟩ := ih hcut
        refine ⟨rfl, ?_⟩
        rw [utf8Size_cons]
        omega
      · cases h

theorem utf8Size_of_cutAt? {t a b : Text} {n : Nat} (h : cutAt? t n = some (a, b)) :
    utf8Size t = n + utf8Size b := by
  obtain ⟨rfl, rfl⟩ := eq_append_of_cutAt? h
  exact utf8Size_append a b

/-- Nothing comes after a cut if and only if it is at the end of the text. -/
theorem utf8Size_le_iff_of_cutAt? {t a b : Text} {n : Nat} (h : cutAt? t n = some (a, b)) :
    utf8Size t ≤ n ↔ b = [] := by
  rw [utf8Size_of_cutAt? h]
  constructor
  · intro hle
    cases b with
    | nil => rfl
    | cons c b =>
      have hpos := utf8Size_pos (List.cons_ne_nil c b)
      omega
  · rintro rfl
    exact Nat.le_refl n

theorem sum?_eq {a b : Nat} (h : a + b < USize.size) : sum? a b = some (a + b) := if_pos h

theorem difference?_eq {a b : Nat} (h : b ≤ a) : difference? a b = some (a - b) := if_pos h

/-- An end of a text that is made up of whole characters. -/
theorem last?_append (a b : Text) : (a ++ b).last? (utf8Size b) = some b := by
  have hsize : utf8Size (a ++ b) - utf8Size b = utf8Size a := by
    rw [utf8Size_append, Nat.add_sub_cancel]
  have hle : utf8Size b ≤ utf8Size (a ++ b) := by
    rw [utf8Size_append]
    omega
  rw [last?, difference?_eq hle, hsize]
  simp only [Option.bind_eq_bind, Option.bind_some, cutAt?_append]
  rfl

/-- A part that is made up of whole characters. -/
theorem between?_append (a b t : Text) :
    (a ++ (b ++ t)).between? (utf8Size a) (utf8Size (a ++ b)) = some b := by
  have hsize : utf8Size (a ++ b) - utf8Size a = utf8Size b := by
    rw [utf8Size_append, Nat.add_sub_cancel_left]
  have hle : utf8Size a ≤ utf8Size (a ++ b) := by
    rw [utf8Size_append]
    omega
  rw [between?, if_pos hle, cutAt?_append, hsize]
  simp only [Option.bind_eq_bind, Option.bind_some, cutAt?_append]
  rfl

example : cutAt? "aé".toList 1 = some (['a'], ['é']) ∧ cutAt? "aé".toList 2 = none := by decide

end Text

end SafeMarkup
