/-!
# Notes on vocabulary items

What the vocabulary tables say about an item besides its spelling: whether it is still current, and example
programs that use it.
-/

namespace ElleFrontEnd

/-- Whether a vocabulary item is still to be used in new programs. -/
inductive Stability
  | stable
  | deprecated
deriving DecidableEq

/-- The name of a stability level. -/
def Stability.label : Stability → String
  | .stable => "Stable"
  | .deprecated => "Deprecated"

/-- A complete example program, with an optional remark. -/
structure Example where
  code : String
  note : Option String := none
deriving DecidableEq

end ElleFrontEnd
