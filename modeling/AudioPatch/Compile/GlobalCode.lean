import AudioPatch.Code.Basic
import AudioPatch.Compile.Error
import AudioPatch.Settings.Basic
import AudioPatch.Symbol.Names

/-!
# Global code

Code that is not part of a node comes from definitions, which can depend on other
definitions. All that nodes depend on is listed with every definition behind its own
dependencies, generated in that order, and kept once: of equal fragments the first.
-/

namespace AudioPatch

/-- A computation that uses names only by asking for symbols of global code. -/
inductive Script (α : Type) where
  | done (a : α)
  | fail (e : CompileError)
  /-- Asks for the symbol of a key in a namespace. -/
  | symbol (space key : String) (next : Except SymbolError String → Script α)

namespace Script

variable {α β : Type}

/-- One script after another. -/
def bind : Script α → (α → Script β) → Script β
  | .done a, f => f a
  | .fail e, _ => .fail e
  | .symbol space key next, f => .symbol space key fun answer => (next answer).bind f

instance : Monad Script where
  pure := .done
  bind := bind

/-- The symbol of a key, or the failure to name it. -/
def ask (space key : String) : Script String :=
  .symbol space key fun
    | .ok s => .done s
    | .error e => .fail (.symbol e)

/-- What a script comes to, and the names afterwards. -/
def run : Script α → Names → Except CompileError α × Names
  | .done a, names => (.ok a, names)
  | .fail e, names => (.error e, names)
  | .symbol space key next, names =>
      let (answer, names) := names.globalSymbol space key
      (next answer).run names

end Script

/-- A function that global code takes from its host. -/
structure Import where
  name : String
  args : List Variable := []
  returns : ValueType := .void
deriving DecidableEq, Repr

/-- A name that global code gives to its host, for all targets or for some. -/
structure Export where
  name : String
  targets : Option (List Target) := none
deriving DecidableEq, Repr

/-- Whether a name is given to the host when rendering for a target. -/
def Export.appliesTo (e : Export) (target : Target) : Bool :=
  e.targets.all (·.contains target)

/-- What the generator of global code can see. -/
structure CodeContext where
  globals : Globals
  settings : Settings

/-- A piece of global code with all that it depends on. -/
structure Definition where
  /-- The namespace of its symbols. -/
  space : String
  generate : CodeContext → Script Code
  dependencies : List Definition := []
  imports : List Import := []
  exports : List Export := []

mutual

/-- A definition behind its flattened dependencies. -/
def Definition.flatten : Definition → List Definition
  | ⟨space, generate, dependencies, imports, exports⟩ =>
      Definition.flattenAll dependencies ++ [⟨space, generate, dependencies, imports, exports⟩]

/-- Definitions, each behind its flattened dependencies, as often as they occur. -/
def Definition.flattenAll : List Definition → List Definition
  | [] => []
  | d :: rest => d.flatten ++ Definition.flattenAll rest

end

/-- The first element with each name. -/
def firstWithName {α : Type} (name : α → String) (l : List α) : List α :=
  l.foldl (fun kept a => if kept.any (name · = name a) then kept else kept ++ [a]) []

namespace Definition

/-- The fragments that definitions generate, without those equal to an earlier one, after
the ones kept so far. A failure leaves the symbols that were named before it. -/
def fragments (context : CodeContext) (kept : List Code) :
    List Definition → Names → Except CompileError (List Code) × Names
  | [], names => (.ok kept, names)
  | d :: rest, names =>
      match (d.generate context).run names with
      | (.error e, names) => (.error e, names)
      | (.ok code, names) =>
          fragments context (if kept.contains code then kept else kept ++ [code]) rest names

/-- The code that definitions generate, and the names afterwards. -/
def instantiate (definitions : List Definition) (settings : Settings) (names : Names) :
    Except CompileError Code × Names :=
  let (result, names) := fragments ⟨names.globals, settings⟩ [] definitions names
  (result.map Code.concat, names)

/-- The names that definitions give to the host, each once. -/
def collectExports (definitions : List Definition) (target : Target) : List Export :=
  firstWithName (·.name) ((definitions.flatMap (·.exports)).filter (·.appliesTo target))

/-- The functions that definitions take from the host, each once. -/
def collectImports (definitions : List Definition) : List Import :=
  firstWithName (·.name) (definitions.flatMap (·.imports))

end Definition

end AudioPatch
