import ExprForest.Grammar.Basic

namespace ExprForest

/-!
# Trees from host codes

Hosts name operators and kinds of terminals by numbers, which may be wrong.

* `TreeError` — why a tree is not made;
* `Tree.nodeOfCode` — a node with the operator of a code, or the reason together with the two subtrees;
* `Tree.terminalOfCode` — a terminal of the kind of a code.
-/

/-- Why a tree is not made. -/
inductive TreeError where
  | invalidArgument (reason : String)
  | outOfMemory
  deriving DecidableEq

/-- The wording of a tree that is not made. -/
def TreeError.message : TreeError → String
  | invalidArgument reason => "invalid argument: " ++ reason
  | outOfMemory => "out of memory while copying an identifier"

/-- A tree that an engine could not make is a failure of the engine. -/
def EngineError.ofTreeError : TreeError → EngineError
  | .outOfMemory => .outOfMemory
  | .invalidArgument reason => .other reason

/-- The operator of a host code. -/
def Operator.ofHostCode (code : Int) : Except TreeError Operator :=
  match Operator.ofCode code with
  | .ok op => .ok op
  | .error e => .error (.invalidArgument e.message)

namespace Tree

/-- A node that was refused, with the subtrees that it was to join. -/
structure Refused where
  error : TreeError
  left : Tree
  right : Tree

/-- A node with the operator of a host code.  If it is refused, the subtrees come back. -/
def nodeOfCode (code : Int) (left right : Tree) : Except Refused Tree :=
  match Operator.ofHostCode code with
  | .ok op => .ok (node op left right)
  | .error error => .error ⟨error, left, right⟩

/-- The host's number for the kind of a number. -/
def numberCode : Int := 1

/-- The host's number for the kind of a name. -/
def identifierCode : Int := 2

/-- A terminal of the kind of a host code.  Only the part that the kind asks for is looked at. -/
def terminalOfCode (kind : Int) (value : Float) (name : Option String) : Except TreeError Tree :=
  if kind = numberCode then .ok (number value)
  else if kind = identifierCode then
    match name with
    | some name => .ok (identifier name)
    | none => .error (.invalidArgument "identifier terminal needs a name")
  else .error (.invalidArgument ("unknown terminal kind " ++ toString kind))

end Tree

end ExprForest
