import SafeMarkup.Text.Basic

/-!
# Text that is held back

Text that cannot be decided yet is kept until more of it is there. The memory for it never shrinks,
so its size is that of the longest text that has been held, and it is limited. A request for more
memory is counted even if it is refused. The count is exact here, however large it gets.
-/

namespace SafeMarkup

/-- Held back text, and the account of the memory for it. Sizes are in bytes. -/
structure HeldText where
  text : Text
  /-- The size of the memory. -/
  reserved : Nat
  /-- All memory that has been asked for. That it fits a size is not said here, since refused
  requests stay counted. -/
  usage : Nat
  /-- The most memory that may be asked for. -/
  limit : Nat
  deriving DecidableEq, Repr

/-- More memory was asked for than allowed. -/
structure LimitExceeded where
  usage : Nat
  limit : Nat
  deriving DecidableEq, Repr

def LimitExceeded.message (e : LimitExceeded) : Text :=
  "Memory limit of ".toList ++ Text.ofNat e.limit ++ " bytes has been exceeded: ".toList ++
    Text.ofNat e.usage ++ " bytes were used.".toList

namespace HeldText

/-- No text, in memory of which some is reserved from the start. That is never refused. -/
def new (preallocated limit : Nat) : HeldText := ⟨[], preallocated, preallocated, limit⟩

def isEmpty (held : HeldText) : Bool := held.text.isEmpty

/-- Adds text at the end, if there is memory for it. -/
def append (held : HeldText) (more : Text) : HeldText × Option LimitExceeded :=
  let size := Text.utf8Size (held.text ++ more)
  if size ≤ held.reserved then ({ held with text := held.text ++ more }, none)
  else
    let usage := held.usage + (size - held.reserved)
    if usage ≤ held.limit then
      ({ held with text := held.text ++ more, reserved := size, usage }, none)
    else ({ held with usage }, some ⟨usage, held.limit⟩)

/-- Keeps only a part of the text. -/
def keep (held : HeldText) (text : Text) : HeldText := { held with text }

def clear (held : HeldText) : HeldText := held.keep []

end HeldText

end SafeMarkup
