import MarkupMachine.Value.Basic

/-! Element trees: what a program is before it runs. Elements carry attributes whose values are
expressions, and perhaps the place in a source text where they stood. -/

namespace MarkupMachine

structure Position where
  line : UInt32
  column : UInt32
  offset : UInt64
  deriving DecidableEq, Inhabited

/-- An expression is evaluated when its element is set up. A symbol names a slot of the frame so
many levels out; an interpolation joins the texts of its parts. -/
inductive Expression where
  | literal (value : Value)
  | variable (name : String)
  | symbol (symbol : Char) (level : UInt32)
  | interpolation (parts : List Expression)
  deriving Inhabited

inductive Operator where
  | assign
  | add
  | subtract
  | multiply
  | divide
  | modulo
  | pattern
  | prepend
  | append
  deriving DecidableEq, Inhabited

namespace Operator

def all : List Operator :=
  [.assign, .add, .subtract, .multiply, .divide, .modulo, .pattern, .prepend, .append]

def text : Operator → String
  | .assign => "="
  | .add => "+="
  | .subtract => "-="
  | .multiply => "*="
  | .divide => "/="
  | .modulo => "%="
  | .pattern => "~="
  | .prepend => "^="
  | .append => "$="

end Operator

structure Attribute where
  name : String
  operator : Operator := .assign
  value : Option Expression := none
  deriving Inhabited

structure Element where
  tag : String
  attributes : List Attribute := []
  position : Option Position := none
  deriving Inhabited

/-- A document may stand inside a tree, though no program gets past one. -/
inductive Tree where
  | document (children : List Tree)
  | element (element : Element) (children : List Tree)
  | content (text : String)
  | comment (text : String)
  deriving Inhabited

namespace Tree

def children : Tree → List Tree
  | .document children => children
  | .element _ children => children
  | _ => []

def withAttribute (t : Tree) (a : Attribute) : Tree :=
  match t with
  | .element e children => .element { e with attributes := e.attributes ++ [a] } children
  | t => t

def withChild (t child : Tree) : Tree :=
  match t with
  | .document children => .document (children ++ [child])
  | .element e children => .element e (children ++ [child])
  | t => t

def withPosition (t : Tree) (p : Position) : Tree :=
  match t with
  | .element e children => .element { e with position := some p } children
  | t => t

def nest (t : Tree) (tag : String) : Nat → Tree
  | 0 => t
  | count + 1 => .element { tag } [t.nest tag count]

mutual

def size : Tree → Nat
  | .document children => sizes children + 1
  | .element _ children => sizes children + 1
  | .content _ => 1
  | .comment _ => 1

def sizes : List Tree → Nat
  | [] => 0
  | t :: rest => t.size + sizes rest

end

end Tree
end MarkupMachine
