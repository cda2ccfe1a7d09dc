/-!
# Code

Generated code is a list of elements: stretches of text between declarations of
variables and functions. Building code a piece at a time joins neighbouring texts and
drops empty ones, so that equal code is equal however it was put together.
-/

namespace AudioPatch

/-- The type of a variable, of an argument or of what a function returns. -/
inductive ValueType where
  | float
  | int
  | boolean
  | string
  | message
  | void
deriving DecidableEq, Repr

/-- A name with its type. -/
structure Variable where
  name : String
  type : ValueType
deriving DecidableEq, Repr

/-- One piece of code. A declared variable may change or not, and may lack a value. -/
inductive Element where
  | text (value : String)
  | binding (mutable : Bool) (declared : Variable) (value : Option (List Element))
  | function (name : String) (args : List Variable) (returns : ValueType) (body : List Element)
deriving Repr

/-- A piece of generated code. -/
abbrev Code := List Element

/-- A function on its own. -/
structure Function where
  name : String
  args : List Variable
  returns : ValueType
  body : Code
deriving Repr

namespace Element

mutual

/-- Whether two elements are equal. -/
def decideEq : (a b : Element) → Decidable (a = b)
  | .text s, .text t =>
      if h : s = t then isTrue (h ▸ rfl) else isFalse fun e => h (Element.text.inj e)
  | .binding m d v, .binding m' d' v' =>
      match decideEqValue v v' with
      | isTrue hv =>
          if h : m = m' ∧ d = d' then isTrue (by rw [h.1, h.2, hv])
          else isFalse fun e => by
            have := Element.binding.inj e
            exact h ⟨this.1, this.2.1⟩
      | isFalse hv => isFalse fun e => hv (Element.binding.inj e).2.2
  | .function n a r b, .function n' a' r' b' =>
      match decideEqList b b' with
      | isTrue hb =>
          if h : n = n' ∧ a = a' ∧ r = r' then isTrue (by rw [h.1, h.2.1, h.2.2, hb])
          else isFalse fun e => by
            have := Element.function.inj e
            exact h ⟨this.1, this.2.1, this.2.2.1⟩
      | isFalse hb => isFalse fun e => hb (Element.function.inj e).2.2.2
  | .text _, .binding _ _ _ => isFalse nofun
  | .text _, .function _ _ _ _ => isFalse nofun
  | .binding _ _ _, .text _ => isFalse nofun
  | .binding _ _ _, .function _ _ _ _ => isFalse nofun
  | .function _ _ _ _, .text _ => isFalse nofun
  | .function _ _ _ _, .binding _ _ _ => isFalse nofun

/-- Whether two pieces of code are equal. -/
def decideEqList : (a b : List Element) → Decidable (a = b)
  | [], [] => isTrue rfl
  | [], _ :: _ => isFalse nofun
  | _ :: _, [] => isFalse nofun
  | x :: xs, y :: ys =>
      match decideEq x y, decideEqList xs ys with
      | isTrue h, isTrue hs => isTrue (by rw [h, hs])
      | isFalse h, _ => isFalse fun e => h (List.cons.inj e).1
      | _, isFalse hs => isFalse fun e => hs (List.cons.inj e).2

/-- Whether two values of variables are equal. -/
def decideEqValue : (a b : Option (List Element)) → Decidable (a = b)
  | none, none => isTrue rfl
  | none, some _ => isFalse nofun
  | some _, none => isFalse nofun
  | some a, some b =>
      match decideEqList a b with
      | isTrue h => isTrue (by rw [h])
      | isFalse h => isFalse fun e => h (Option.some.inj e)

end

instance : DecidableEq Element := decideEq

end Element

deriving instance DecidableEq for Function

namespace Code

/-- No code. -/
def empty : Code := []

/-- Code with one more element. An empty text adds nothing, and a text after a text
lengthens it. -/
def push (code : Code) : Element → Code
  | .text s =>
      if s = "" then code
      else match code.getLast? with
        | some (.text t) => code.dropLast ++ [.text (t ++ s)]
        | _ => code ++ [.text s]
  | e => code ++ [e]

/-- Code followed by a text. -/
def pushText (code : Code) (s : String) : Code :=
  code.push (.text s)

/-- One text. -/
def ofText (s : String) : Code :=
  empty.pushText s

/-- Code followed by all the elements of other code. -/
def append (code other : Code) : Code :=
  other.foldl push code

/-- All the pieces, one after the other. -/
def concat (pieces : List Code) : Code :=
  pieces.foldl append empty

/-- Code followed by a constant. -/
def pushConstant (code : Code) (name : String) (type : ValueType) (value : Code) : Code :=
  code.push (.binding false ⟨name, type⟩ (some value))

/-- Code followed by a variable that may change. -/
def pushVariable (code : Code) (name : String) (type : ValueType) (value : Option Code) : Code :=
  code.push (.binding true ⟨name, type⟩ value)

end Code

namespace Function

/-- The declaration of a function. -/
def element (f : Function) : Element :=
  .function f.name f.args f.returns f.body

/-- Code that holds a function and nothing else. -/
def code (f : Function) : Code :=
  [f.element]

/-- A function of one message that returns nothing. -/
def ofMessage (name argument : String) (body : Code) : Function :=
  ⟨name, [⟨argument, .message⟩], .void, body⟩

end Function

/-- The functions declared at the top of a piece of code. -/
def Code.functions (code : Code) : List Function :=
  code.filterMap fun
    | .function name args returns body => some ⟨name, args, returns, body⟩
    | _ => none

end AudioPatch
