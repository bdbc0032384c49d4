import UntypedLambda.Index
import UntypedLambda.Term.Basic

/-!
# Paths

A path addresses a sub term by the indices of nodes: the empty path is the term itself, and each
index enters a node. Looking up takes an index below zero from the end of the nodes, and refuses a
number that is no index. Replacing a node takes only the exact index of a node.
-/

namespace UntypedLambda

/-- What can be wrong with a path. -/
inductive PathFault where
  /-- There is no node with this index to enter. -/
  | noNode
  /-- The number of a node to enter is no index. -/
  | noIndex
  /-- A variable has no node to replace. -/
  | replaceInVar (name : String)
  /-- The node of an abstraction has another index. -/
  | replaceInAbs (index : Int)
  /-- The nodes of an application have other indices. -/
  | replaceInApp (index : Int)
  deriving DecidableEq

/-- The text of a fault. -/
def PathFault.message : PathFault → String
  | .noNode => "tuple index out of range"
  | .noIndex => Index.refusal
  | .replaceInVar name => "variable '" ++ name ++ "' has no nodes"
  | .replaceInAbs index => "abstraction has no node " ++ toString index
  | .replaceInApp index => "application has no node " ++ toString index

/-- Indices of nodes, outermost first. -/
abbrev Path := List Int

namespace Term

/-- The node with an index; below zero, counted from the last. -/
def node (t : Term) (index : Int) : Except PathFault Term :=
  let place := if index < 0 then index + t.nodes.length else index
  if !Index.fits index then .error .noIndex
  else if place < 0 then .error .noNode
  else
    match t.nodes[place.toNat]? with
    | some sub => .ok sub
    | none => .error .noNode

/-- The term with one node replaced. -/
def replace (t : Term) (index : Int) (new : Term) : Except PathFault Term :=
  match t with
  | var name => .error (.replaceInVar name)
  | abs param _ => if index = 0 then .ok (abs param new) else .error (.replaceInAbs index)
  | app left right =>
    if index = 0 then .ok (app new right)
    else if index = 1 then .ok (app left new)
    else .error (.replaceInApp index)

/-- The sub term at a path. -/
def get (t : Term) : Path → Except PathFault Term
  | [] => .ok t
  | index :: path =>
    match t.node index with
    | .ok sub => sub.get path
    | .error fault => .error fault

/-- The term with the sub term at a path replaced. The way down is looked up first; then nodes are
replaced from the innermost outward, so of several faults the innermost counts. -/
def set (t : Term) (path : Path) (new : Term) : Except PathFault Term :=
  match path with
  | [] => .ok new
  | [index] => t.replace index new
  | index :: path =>
    match t.node index with
    | .error fault => .error fault
    | .ok sub =>
      match sub.set path new with
      | .error fault => .error fault
      | .ok sub => t.replace index sub

end Term

end UntypedLambda
