import MarkupMachine.Machine.Element.Structural

/-! Elements that intercept the exception in flight. It is taken off the stack before the filter is
evaluated. On a match it stays in the frame's context and the children run; otherwise it is put
back as it was. A filter that fails puts its own exception in its place. -/

namespace MarkupMachine.Catcher

def filter (value : Option Expression → Setup Value) :
    List Attribute → Option Value → Setup (Option String)
  | [], none => return none
  | [], some (.text s) => return some s
  | [], some other =>
    throw (Exception.raised .wrongDataType s!"`for` must be a string, got {other.kind}")
  | a :: rest, found => do
    if a.name ≠ "for" then
      throw (Exception.raised .notImplemented s!"unknown attribute `{a.name}` on <catch>")
    if found.isSome then
      throw (Exception.raised .duplicateName "duplicate attribute `for`")
    if a.operator ≠ .assign then
      throw (Exception.raised .invalidValue
        s!"unsupported operator `{a.operator.text}` for `for`")
    if a.value.isNone then
      throw (Exception.raised .invalidValue "attribute `for` requires a value")
    filter value rest (some (← value a.value))

/-- A failure of the filter, with the exception it was about to handle. -/
def failure (e handled : Exception) : Exception :=
  .withMessage e.category (e.message?.getD "" ++ s!" (while handling {handled.category})")

def afterPushed (env : Environment) (co : Coroutine) : Except Fault Coroutine := do
  let (frame, element) ← co.element? .catcher
  match co.stack.exception with
  | none =>
    let co ← co.installed frame (.catcher none)
    return co.onStack (·.setNext .onPopping)
  | some e =>
    let co := co.onStack Stack.clear
    match co.runSetup (filter (env.valueOf co.stack) element.attributes none) with
    | (.error setup, co) =>
      let co ← co.installed frame (.catcher none)
      return co.onStack fun s =>
        (s.raise ((failure setup e).atElement element) (.handling e)).setNext .onPopping
    | (.ok accepted, co) =>
      if filterAccepts accepted e.category then
        let co := co.onStack (·.modifyTop (·.setSymbol .question e.toValue))
        let co ← co.installed frame (.catcher (some e))
        return co.onStack fun s => (s.note (.caught e)).setNext .selectChild
      else
        let co ← co.installed frame (.catcher none)
        return co.onStack fun s => (s.raise e .missed).setNext .onPopping

end MarkupMachine.Catcher
