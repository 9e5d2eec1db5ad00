import SortNetwork.Text.Quoted

/-!
# SortNetwork.Variant

Closed sets of named choices: strategies, wait policies, barriers, queues.

A choice is written by its name and read back from it, whatever the case of its ASCII letters.  A letter
outside ASCII never matches, even one whose lower case is an ASCII letter.

* `find?_name`: a name that no other choice shares is read back as its choice.
-/

namespace SortNetwork

/-- A closed set of named choices, in the order in which they are listed. -/
class Variant (κ : Type) where
  /-- what messages call one of the choices -/
  noun : String
  all : List κ
  name : κ → String
  /-- the choice taken where none is given -/
  preferred : κ

/-- A text that names no choice of its set. -/
structure UnknownVariant where
  noun : String
  text : String
  deriving DecidableEq, Repr

/-- What is reported of an unknown name: the set, then the text in quotes. -/
def UnknownVariant.message (unknown : UnknownVariant) : String :=
  "unknown " ++ unknown.noun ++ ": " ++ Text.quoted unknown.text

namespace Variant

variable (κ : Type) [Variant κ]

/-- Whether two names agree up to the case of ASCII letters. -/
def sameName (a b : String) : Bool :=
  a.toList.map Char.toLower == b.toList.map Char.toLower

/-- The first choice with this name. -/
def find? (text : String) : Option κ :=
  (all : List κ).find? fun choice => sameName (name choice) text

/-- Reads a choice from its name. -/
def parse (text : String) : Except UnknownVariant κ :=
  match find? κ text with
  | some choice => .ok choice
  | none => .error ⟨noun κ, text⟩

theorem sameName_self (a : String) : sameName a a = true := by simp [sameName]

/-- A name that no other choice shares is read back as its choice. -/
theorem find?_name {choice : κ} (listed : choice ∈ (all : List κ))
    (alone : ∀ other ∈ (all : List κ), sameName (name other) (name choice) = true → other = choice) :
    find? κ (name choice) = some choice := by
  unfold find?
  cases found : (all : List κ).find? fun other => sameName (name other) (name choice) with
  | none =>
    have := List.find?_eq_none.1 found choice listed
    simp [sameName_self] at this
  | some other =>
    have same : sameName (name other) (name choice) = true := by simpa using List.find?_some (p := _) found
    rw [alone other (List.mem_of_find?_eq_some found) same]

end Variant

end SortNetwork
