import ElleFrontEnd.Layout.Fragment
import ElleFrontEnd.Tree.Type

/-!
# Printing types and parameters
-/

namespace ElleFrontEnd

open Fragment

mutual

/-- A type as fragments. -/
def TypeExpr.layout : TypeExpr → List Fragment
  | .primitive _ type => [word (.primitive type)]
  | .named _ n => [ofName n]
  | .array _ element dims => element.layout ++ (List.replicate dims [mark .lBracket, mark .rBracket]).flatten
  | .pointer _ base depth => base.layout ++ List.replicate depth (op .star)
  | .generic _ n args => ofName n :: angles (commas (typeListLayout args))
  | .tuple _ first second => parens (commas [first.layout, second.layout])

/-- Each of several types as fragments. -/
def typeListLayout : List TypeExpr → List (List Fragment)
  | [] => []
  | t :: ts => t.layout :: typeListLayout ts

end

/-- Type arguments, if there are any. -/
def optTypeArgsLayout : Option (List TypeExpr) → List Fragment
  | none => []
  | some args => angles (commas (typeListLayout args))

/-- A parameter as fragments. -/
def Param.layout : Param → List Fragment
  | .named _ type n => type.layout ++ [space, ofName n]
  | .unnamed _ type => type.layout
  | .variadic _ none => [mark .ellipsis]
  | .variadic _ (some n) => [mark .ellipsis, ofName n]
  | .noFormat _ type n => [mark .atSign, ofName "nofmt", space] ++ type.layout ++ [space, ofName n]

/-- The meta binding of a parameter list as fragments. -/
def metaLayout : Option String → List (List Fragment)
  | none => []
  | some n => [[ofName "ElleMeta", space, ofName n]]

/-- A parameter list as fragments. -/
def ParamList.layout (list : ParamList) : List Fragment :=
  parens (commas (metaLayout list.metaName ++ list.params.map Param.layout))

end ElleFrontEnd
