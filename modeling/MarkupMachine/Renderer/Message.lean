import MarkupMachine.Value.Basic

/-! Messages between the machine and a renderer: requests that address part of a display, and the
responses to them. -/

namespace MarkupMachine

structure Uuid where
  digits : List (Fin 16)
  size : digits.length = 32
  deriving DecidableEq

namespace Uuid

def digitsOf : Nat → Nat → List (Fin 16)
  | 0, _ => []
  | places + 1, n => digitsOf places (n / 16) ++ [⟨n % 16, Nat.mod_lt _ (by decide)⟩]

theorem length_digitsOf (places n : Nat) : (digitsOf places n).length = places := by
  induction places generalizing n with
  | zero => rfl
  | succ places ih => simp [digitsOf, ih]

def ofNat (n : Nat) : Uuid := ⟨digitsOf 32 n, length_digitsOf 32 n⟩

instance : Inhabited Uuid := ⟨ofNat 0⟩

def text (id : Uuid) : String :=
  let cs := id.digits.map fun d => Nat.digitChar d.val
  String.ofList (cs.take 8 ++ '-' :: (cs.drop 8).take 4 ++ '-' :: (cs.drop 12).take 4 ++
    '-' :: (cs.drop 16).take 4 ++ '-' :: cs.drop 20)

end Uuid

inductive Target where
  | session
  | workspace
  | plainWindow
  | tabbedWindow
  | tabPage
  | dom
  deriving DecidableEq, Inhabited

inductive ElementType where
  | void
  | handle
  | id
  deriving DecidableEq, Inhabited

inductive Payload where
  | void
  | text (s : String)
  | json (v : Value)
  deriving Inhabited

namespace Payload

/-- Strings travel as text, everything else but `null` as JSON. -/
def ofValue : Value → Payload
  | .null => .void
  | .text s => .text s
  | v => .json v

def toValue : Payload → Value
  | .void => .null
  | .text s => .text s
  | .json v => v

end Payload

structure Request where
  id : Uuid
  target : Target
  handle : UInt64
  operation : String
  elementType : ElementType := .void
  element : Option String := none
  property : Option String := none
  payload : Payload := .void
  deriving Inhabited

namespace Request

/-- Addresses an element: by its id after a number sign, else by its handle. -/
def onElement (element : String) (r : Request) : Request :=
  match element.toList with
  | '#' :: id => { r with elementType := .id, element := some (String.ofList id) }
  | _ => { r with elementType := .handle, element := some element }

def atProperty (property : String) (r : Request) : Request := { r with property := some property }

def withPayload (payload : Payload) (r : Request) : Request := { r with payload }

def content (operation : String) (id : Uuid) (dom : UInt64) (element text : String) : Request :=
  ({ id, target := .dom, handle := dom, operation : Request }.onElement element).withPayload
    (.text text)

def append : Uuid → UInt64 → String → String → Request := content "append"

def displace : Uuid → UInt64 → String → String → Request := content "displace"

def update (id : Uuid) (dom : UInt64) (element property : String) (value : Value) : Request :=
  (({ id, target := .dom, handle := dom, operation := "update" : Request }.onElement
    element).atProperty property).withPayload (.ofValue value)

end Request

structure Response where
  id : Uuid
  status : UInt16
  result : UInt64 := 0
  payload : Payload := .void
  deriving Inhabited

namespace Response

def okStatus : UInt16 := 200

def ok (r : Request) (payload : Payload) : Response := { id := r.id, status := okStatus, payload }

def withStatus (r : Request) (status : UInt16) : Response := { id := r.id, status }

def isOk (r : Response) : Bool := r.status == okStatus

end Response
end MarkupMachine
