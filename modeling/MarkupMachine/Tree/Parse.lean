import MarkupMachine.Exception.Basic
import MarkupMachine.Tree.Codec
import MarkupMachine.Tree.Document

/-! Documents out of JSON text. -/

namespace MarkupMachine.Document

/-- Why a text is no document: it holds no tree, or the tree has no element at its root. -/
inductive Failure where
  | json (why : Json.Failure)
  | noRootElement
  deriving DecidableEq, Repr

def Failure.message : Failure → String
  | .json why => "invalid document JSON: " ++ why.word
  | .noRootElement => Fault.noRootElement.message

def parse (number : Nat) (text : String) : Except Failure Document :=
  match Json.decode Tree.decoder text with
  | .error why => .error (.json why)
  | .ok tree =>
    match ofTree? number tree with
    | some doc => .ok doc
    | none => .error .noRootElement

end MarkupMachine.Document
