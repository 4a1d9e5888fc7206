import TemplateActions.Number.Word

/-!
Indentation: blanks in front of a line, given as a count of units. The blanks are laid out before
the line is written, so that a count which no machine word holds, or which needs more memory than
there is, is a fault.
-/
namespace TemplateActions

inductive IndentFault where
  | uncountable
  | exhausting
deriving DecidableEq

namespace Indent

/-- The number of blanks from which on no memory holds them: two to the power of 40. -/
def memoryLimit : Int := 1099511627776

/-- The fault of `count` units of `width` blanks, if there is one. A count below zero stands for no
blanks, but has to fit into a word all the same. -/
def fault? (width : Nat) (count : Int) : Option IndentFault :=
  if !Word.holds count || Word.limit ≤ width * count then some .uncountable
  else if memoryLimit ≤ width * count then some .exhausting
  else none

def blanks (n : Int) : List Char := List.replicate n.toNat ' '

end Indent
end TemplateActions
