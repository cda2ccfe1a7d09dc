import AudioPatch.Code.Basic

/-!
# Printed code

Code is printed as neutral pseudo code: texts as they are, a variable on a line of its
own, a function with its body between braces.
-/

namespace AudioPatch

/-- The name of a type as it is printed. -/
def ValueType.print : ValueType → String
  | .float => "Float"
  | .int => "Int"
  | .boolean => "Boolean"
  | .string => "String"
  | .message => "Message"
  | .void => "void"

/-- A name, a colon and its type. -/
def Variable.print (v : Variable) : String :=
  v.name ++ ": " ++ v.type.print

mutual

/-- The text of an element. -/
def Element.print : Element → String
  | .text s => s
  | .binding mutable declared value =>
      (if mutable then "let " else "const ") ++ declared.print ++ Element.printValue value ++ "\n"
  | .function name args returns body =>
      "function " ++ name ++ "(" ++ ", ".intercalate (args.map Variable.print) ++ "): " ++
        returns.print ++ " \x7b\n" ++ Element.printAll body ++ "\n\x7d\n"

/-- The text of the value of a variable, which may be absent. -/
def Element.printValue : Option (List Element) → String
  | none => ""
  | some value => " = " ++ Element.printAll value

/-- The texts of elements, one after the other. -/
def Element.printAll : List Element → String
  | [] => ""
  | e :: rest => e.print ++ Element.printAll rest

end

/-- The text of a piece of code. -/
def Code.print (code : Code) : String :=
  Element.printAll code

end AudioPatch
