import SafeMarkup.Js.Escape.Bytes

/-!
# Escaping piece by piece

The loop that escapes a text for JS writes what stays as it is in one piece, whenever a replacement
is due, and cuts the text at positions that count bytes. All of them lie between two characters, so
the pieces are there, and together they are what escaping the characters one by one writes
(`escapeFrom_eq`).
-/

namespace SafeMarkup.Js.Bytes

open Text

variable {replacement : Char → Option Text} {c : Char} {input a run z text after : Text}

/-- What is written for a character. -/
def written (replacement : Char → Option Text) (c : Char) : Text :=
  (replaced? replacement c).getD [c]

/-- A character that is replaced: what has been passed before it is written first. -/
theorem escapeFrom_replaced (h : input = a ++ (run ++ c :: z))
    (hc : replaced? replacement c = some text)
    (hafter : escapeFrom replacement input (utf8Size (a ++ run ++ [c]))
      (utf8Size (a ++ run ++ [c])) z = some after) :
    escapeFrom replacement input (utf8Size a) (utf8Size (a ++ run)) (c :: z)
      = some (run ++ text ++ after) := by
  have hrun : input.between? (utf8Size a) (utf8Size (a ++ run)) = some run := by
    rw [h, between?_append]
  rw [utf8Size_append (a ++ run), utf8Size_cons, utf8Size_nil, Nat.add_zero] at hafter
  rw [escapeFrom, hc]
  simp only [hrun, hafter]
  rfl

/-- What has been passed and is not written yet stands before what is written for the rest. -/
theorem escapeFrom_eq (replacement : Char → Option Text) (input a run z : Text)
    (h : input = a ++ (run ++ z)) :
    escapeFrom replacement input (utf8Size a) (utf8Size (a ++ run)) z
      = some (run ++ z.flatMap (written replacement)) := by
  -- what is kept joins `run`; after a replacement everything so far is part of `a`
  induction z generalizing a run with
  | nil =>
    rw [List.append_nil] at h
    have hend := between?_append a run []
    rw [List.append_nil, ← h] at hend
    rw [← h, escapeFrom, hend, List.flatMap_nil, List.append_nil]
  | cons c z ih =>
    rw [List.flatMap_cons, written]
    cases hc : replaced? replacement c with
    | some text =>
      have hafter := ih (a ++ run ++ [c]) [] (by simp [h])
      rw [List.append_nil, List.nil_append] at hafter
      rw [escapeFrom_replaced h hc hafter, List.append_assoc]
      rfl
    | none =>
      have hkept := ih a (run ++ [c]) (by simp [h])
      rw [← List.append_assoc, utf8Size_append (a ++ run), utf8Size_cons, utf8Size_nil,
        Nat.add_zero] at hkept
      rw [escapeFrom, hc]
      exact hkept.trans (congrArg some (List.append_assoc _ _ _))

theorem written_replacement? (c : Char) : written replacement? c = escapeStringChar c := by
  rw [written, replaced?, escapeStringChar]
  cases replacement? c with
  | some escaped => rfl
  | none => cases isControl c <;> rfl

theorem written_regexpReplacement? (c : Char) :
    written regexpReplacement? c = escapeRegexpChar c := by
  rw [escapeRegexpChar, ← written_replacement?, written, written, replaced?, regexpReplacement?]
  cases isRegexpSyntax c <;> rfl

/-- **Escaping piece by piece is escaping.** -/
theorem escapeString_eq (t : Text) : escapeString t = some (Js.escapeString t) := by
  rw [Js.escapeString, ← funext written_replacement?]
  exact escapeFrom_eq replacement? t [] [] t rfl

theorem escapeRegexp_eq (t : Text) : escapeRegexp t = some (Js.escapeRegexp t) := by
  rw [escapeRegexp, Js.escapeRegexp]
  split
  · rfl
  · rw [← funext written_regexpReplacement?]
    exact escapeFrom_eq regexpReplacement? t [] [] t rfl

end SafeMarkup.Js.Bytes
