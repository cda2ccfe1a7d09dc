import AudioPatch.Compile.Registry
import AudioPatch.Text.Quoted

/-!
# Descriptions

Definitions of global code and registries as texts for people to read.
-/

namespace AudioPatch

/-- The name of a type in a description. -/
def ValueType.describe : ValueType → String
  | .float => "Float"
  | .int => "Int"
  | .boolean => "Boolean"
  | .string => "String"
  | .message => "Message"
  | .void => "Void"

/-- The name of a target in a description. -/
def Target.describe : Target → String
  | .javascript => "JavaScript"
  | .assemblyscript => "AssemblyScript"

/-- A record in a description. -/
def describeRecord (name : String) (fields : List (String × String)) : String :=
  name ++ " \x7b " ++ ", ".intercalate (fields.map fun (k, v) => k ++ ": " ++ v) ++ " \x7d"

/-- A variable in a description. -/
def Variable.describe (v : Variable) : String :=
  describeRecord "Variable" [("name", quote v.name), ("type_name", v.type.describe)]

/-- An import in a description. -/
def Import.describe (i : Import) : String :=
  describeRecord "ImportSpec"
    [("name", quote i.name),
     ("args", bracket (i.args.map Variable.describe)),
     ("return_type", i.returns.describe)]

/-- An export in a description. -/
def Export.describe (e : Export) : String :=
  let targets :=
    match e.targets with
    | none => "None"
    | some targets => "Some(" ++ bracket (targets.map Target.describe) ++ ")"
  describeRecord "ExportSpec" [("name", quote e.name), ("targets", targets)]

mutual

/-- A definition in words, with its dependencies and without its code. -/
def Definition.describe : Definition → String
  | ⟨space, _, dependencies, imports, exports⟩ =>
      "GlobalCodeDefinition \x7b namespace: " ++ quote space ++
        ", dependencies: " ++ bracket (Definition.describeAll dependencies) ++
        ", imports: " ++ bracket (imports.map Import.describe) ++
        ", exports: " ++ bracket (exports.map Export.describe) ++ ", .. \x7d"

/-- Definitions in words. -/
def Definition.describeAll : List Definition → List String
  | [] => []
  | d :: rest => d.describe :: Definition.describeAll rest

end

/-- A registry in words: the types that it knows. -/
def Registry.describe (r : Registry) : String :=
  describeRecord "NodeImplementations" [("types", bracket (r.keys.map quote))]

end AudioPatch
