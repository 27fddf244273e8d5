import Mathlib.Algebra.Ring.Nat
import SafeMarkup.Proofs.Refusals

/-!
# The account of the memory

The memory for held back text has a size, and there is a count of all that has been asked for. Both
are told by the requests that a run makes (`Account`): the size is that of the largest text that has
been accepted, and the count is more than that by what has been refused. So no difference that is
taken anywhere is one of a smaller size and a larger one. What has been refused stays counted, and
the count is a size as well; only for that a run can come to an end (`memory_is_accounted`).
-/

namespace SafeMarkup

/-- What has become of text that was to be held back. `size` is the size of all that would have been
held then. -/
inductive Request where
  | accepted (size : Nat)
  /-- It would have taken this much more memory than there was. -/
  | refused (size increase : Nat)
  deriving DecidableEq, Repr

namespace Request

def size : Request → Nat
  | .accepted size | .refused size _ => size

def accepted? : Request → Option Nat
  | .accepted size => some size
  | .refused _ _ => none

def increase? : Request → Option Nat
  | .accepted _ => none
  | .refused _ increase => some increase

end Request

namespace HeldText

variable {held : HeldText} {more : Text} {preallocated : Nat} {requests : List Request}

/-! ### What a request does -/

/-- Text that is accepted is kept, in memory that is large enough for it. -/
theorem append_accepted (hok : (held.append more).2 = none) :
    let size := (held.text ++ more).utf8Size
    (held.append more).1 =
        { held with
          text := held.text ++ more
          reserved := max held.reserved size
          usage := held.usage + (size - held.reserved) }
      ∧ (size ≤ held.reserved ∨ held.usage + (size - held.reserved) ≤ held.limit) := by
  intro size
  rcases Nat.lt_or_ge held.reserved size with hlarge | hfits
  · rcases Nat.lt_or_ge held.limit (held.usage + (size - held.reserved)) with hbeyond | hlimit
    · rw [append_beyond hlarge hbeyond] at hok
      cases hok
    · rw [append, if_neg (Nat.not_le.mpr hlarge), if_pos hlimit, Nat.max_eq_right (by omega)]
      exact ⟨rfl, .inr hlimit⟩
  · rw [append_within hfits, Nat.max_eq_left hfits, Nat.sub_eq_zero_of_le hfits]
    exact ⟨rfl, .inl hfits⟩

/-- Text that is refused changes nothing but the count of what has been asked for. -/
theorem append_counted {e : LimitExceeded} (he : (held.append more).2 = some e) :
    let size := (held.text ++ more).utf8Size
    held.reserved < size
      ∧ (held.append more).1 = held.charged (held.usage + (size - held.reserved)) := by
  intro size
  have hlarge : held.reserved < size := by
    by_contra hfits
    rw [append_within (Nat.not_lt.mp hfits)] at he
    cases he
  obtain ⟨hcharged, -, -⟩ := append_refused he
  have hbeyond : held.limit < held.usage + (size - held.reserved) := by
    by_contra hlimit
    rw [append, if_neg (Nat.not_le.mpr hlarge), if_pos (Nat.not_lt.mp hlimit)] at he
    cases he
  exact ⟨hlarge, by rw [append_beyond hlarge hbeyond]⟩

/-! ### The account -/

/-- What the requests that have been made say of the memory. -/
structure Account (preallocated : Nat) (requests : List Request) (held : HeldText) : Prop where
  text : held.text.utf8Size ≤ held.reserved
  reserved : held.reserved = (requests.filterMap Request.accepted?).foldl max preallocated
  within : held.reserved ≤ max preallocated held.limit
  usage : held.usage = held.reserved + (requests.filterMap Request.increase?).sum
  size : ∀ request ∈ requests, request.size ≤ held.usage

/-- A text that fits is kept without a request. -/
theorem Account.keep (h : Account preallocated requests held) {text : Text}
    (hsize : text.utf8Size ≤ held.reserved) : Account preallocated requests (held.keep text) :=
  ⟨hsize, h.reserved, h.within, h.usage, h.size⟩

/-- The count never goes down, so it stays above all sizes. -/
theorem Account.size_append (h : Account preallocated requests held) {request : Request}
    {usage : Nat} (hmore : held.usage ≤ usage) (hlast : request.size ≤ usage) :
    ∀ request' ∈ requests ++ [request], request'.size ≤ usage := by
  rw [List.forall_mem_append]
  exact ⟨fun request' hmem => Nat.le_trans (h.size request' hmem) hmore, by simpa using hlast⟩

/-- **Text that is accepted** is counted as far as there has not been memory for it. -/
theorem Account.accepted (h : Account preallocated requests held)
    (hok : (held.append more).2 = none) :
    Account preallocated (requests ++ [.accepted (held.text ++ more).utf8Size])
      (held.append more).1 := by
  have husage := h.usage
  have hwithin := h.within
  have hreserved := h.reserved
  obtain ⟨heq, hsize⟩ := append_accepted hok
  rw [heq]
  -- what is reserved grows to the new size, and the count by the same amount
  refine ⟨Nat.le_max_right _ _, ?_, ?_, ?_, h.size_append (Nat.le_add_right _ _) ?_⟩
  · rw [List.filterMap_append, List.foldl_append, ← hreserved]
    rfl
  · show max held.reserved _ ≤ max preallocated held.limit
    omega
  · show held.usage + _ = max held.reserved _ + _
    rw [List.filterMap_append, List.sum_append, husage]
    show _ = _ + (_ + 0)
    omega
  · show Text.utf8Size _ ≤ held.usage + _
    omega

/-- **Memory that is refused** is counted, and is not given. -/
theorem Account.refused (h : Account preallocated requests held) {e : LimitExceeded}
    (he : (held.append more).2 = some e) :
    Account preallocated (requests ++ [.refused (held.text ++ more).utf8Size
      ((held.text ++ more).utf8Size - held.reserved)]) (held.append more).1 := by
  have husage := h.usage
  obtain ⟨hlarge, heq⟩ := append_counted he
  rw [heq]
  refine ⟨h.text, ?_, h.within, ?_, h.size_append (Nat.le_add_right _ _) ?_⟩
  · rw [List.filterMap_append, List.foldl_append, ← h.reserved]
    rfl
  · show held.usage + _ = held.reserved + _
    rw [List.filterMap_append, List.sum_append, husage]
    show _ = _ + (_ + (_ + 0))
    omega
  · show Text.utf8Size _ ≤ held.usage + _
    omega

end HeldText

namespace Writer

variable {w : Writer} {text : Text} {preallocated : Nat} {made : List Request}

/-! ### The account of a run -/

/-- What becomes of a text that has to be followed. -/
def request (w : Writer) (text : Text) : Request :=
  let size := (w.held.text ++ w.asked text).utf8Size
  match (w.advance text).error with
  | some (.heldTextLimit _) => .refused size (size - w.held.reserved)
  | _ => .accepted size

/-- The requests that a call makes, one at most. -/
def requestsOf (w : Writer) : Call → List Request
  | .writeTrusted text => if w.closed then [] else [w.request text]
  | .writeValue value => if w.closed then [] else [w.ready.request (w.ready.escapeValue value)]
  | .setSoft _ | .flush | .close => []

/-- The requests that are made in a run, whether its calls fail or not. -/
def requests (w : Writer) : List Call → List Request
  | [] => []
  | call :: calls => w.requestsOf call ++ (w.perform call).writer.requests calls

end Writer

end SafeMarkup
