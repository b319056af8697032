/-! The instructions that steer control, and the marks that delimit blocks. -/

namespace NodeScript

inductive Control where
  | branch
  | otherwise
  | endBranch
  | whileLoop
  | endWhile
  | numericFor
  | endNumericFor
  | genericFor
  | endGenericFor
  | breakLoop
  | giveBack
  | call
deriving DecidableEq, Repr

namespace Control

def all : List Control :=
  [.branch, .otherwise, .endBranch, .whileLoop, .endWhile, .numericFor, .endNumericFor, .genericFor,
   .endGenericFor, .breakLoop, .giveBack, .call]

/-- The type tag that instructions carry. -/
def tag : Control → String
  | .branch => "if"
  | .otherwise => "else"
  | .endBranch => "endIf"
  | .whileLoop => "while"
  | .endWhile => "endWhile"
  | .numericFor => "forNumeric"
  | .endNumericFor => "endFor"
  | .genericFor => "forGeneric"
  | .endGenericFor => "endForGeneric"
  | .breakLoop => "break"
  | .giveBack => "return"
  | .call => "call"

/-- The name of the constant in messages about wrong queries. -/
def constant : Control → String
  | .branch => "IF"
  | .otherwise => "ELSE"
  | .endBranch => "END_IF"
  | .whileLoop => "WHILE"
  | .endWhile => "END_WHILE"
  | .numericFor => "FOR_NUMERIC"
  | .endNumericFor => "END_FOR"
  | .genericFor => "FOR_GENERIC"
  | .endGenericFor => "END_FOR_GENERIC"
  | .breakLoop => "BREAK"
  | .giveBack => "RETURN"
  | .call => "CALL"

def ofTag? (tag : String) : Option Control :=
  all.find? (·.tag == tag)

end Control

/-- The four kinds of block, named for what opens them. -/
inductive BlockKind where
  | branch
  | whileLoop
  | numericFor
  | genericFor
deriving DecidableEq, Repr

namespace BlockKind

def opener : BlockKind → Control
  | .branch => .branch
  | .whileLoop => .whileLoop
  | .numericFor => .numericFor
  | .genericFor => .genericFor

def terminator : BlockKind → Control
  | .branch => .endBranch
  | .whileLoop => .endWhile
  | .numericFor => .endNumericFor
  | .genericFor => .endGenericFor

end BlockKind

namespace Control

def opens? : Control → Option BlockKind
  | .branch => some .branch
  | .whileLoop => some .whileLoop
  | .numericFor => some .numericFor
  | .genericFor => some .genericFor
  | _ => none

def closes? : Control → Option BlockKind
  | .endBranch => some .branch
  | .endWhile => some .whileLoop
  | .endNumericFor => some .numericFor
  | .endGenericFor => some .genericFor
  | _ => none

end Control

end NodeScript
