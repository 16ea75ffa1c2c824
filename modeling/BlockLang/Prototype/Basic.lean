/-!
Prototypes: what the names of built-in statements and reporters stand for.
-/

namespace BlockLang

-- A statement or reporter that is called by name. Each argument of a call becomes the input of the
-- parameter in the same place.
structure Prototype where
  name : String
  params : List String
  opcode : String
  -- Fields that the block always has.
  fields : List (String × String)
  -- Inputs that the block always has.
  inputs : List (String × String)
  condition : Bool
  deriving DecidableEq, Repr, Inhabited

namespace Prototype

def plain (name : String) (params : List String) (opcode : String) : Prototype :=
  ⟨name, params, opcode, [], [], false⟩

def test (name : String) (params : List String) (opcode : String) : Prototype :=
  ⟨name, params, opcode, [], [], true⟩

def withField (name : String) (params : List String) (opcode field value : String) : Prototype :=
  ⟨name, params, opcode, [(field, value)], [], false⟩

def withInput (name : String) (params : List String) (opcode input value : String) : Prototype :=
  ⟨name, params, opcode, [], [(input, value)], false⟩

end Prototype

end BlockLang
