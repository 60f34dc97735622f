import Parley.Session.Ask

/-!
# Programs made by hand

A host may make a program from its parts, or write a draft instruction by instruction, and have
the result adopted as a method.
-/

namespace Parley.Session.Ask

/-- The literal that a recipe makes. -/
def literal : LiteralRecipe → Ask (Literal Code)
  | .value r => return .value (← make r)
  | .selector s => return .selector s
  | .global name => return .global name
  | .block register => return .block (← method register)

/-- A number for a scope. -/
def freshScope : Ask Nat :=
  act fun w => (w.supply.scope, { w with supply := { w.supply with scope := w.supply.scope + 1 } })

/-- A number for a code. -/
def freshCode : Ask Nat :=
  act fun w => (w.supply.code, { w with supply := { w.supply with code := w.supply.code + 1 } })

/-- Descriptions of variables of one kind. -/
def describe (names : List String) (kind : VariableKind) (depth : UInt8) (scope : Nat) :
    Array Variable :=
  (names.zipIdx.map fun (name, slot) => ⟨name, kind, depth, UInt8.ofNat slot, scope⟩).toArray

/-- The code that is shown to a host. -/
def showCode (c : Code) : Ask Answer := do
  return .code (← finite (← look fun w => w.view? c))

/-- Makes a program a method. -/
def adopt (p : Program Code) (a : Adoption) (register : Option String) : Ask Answer := do
  let holder ← a.holder.mapM cls
  let code : Code := .mk (← freshCode) a.selector holder a.isBlock p
  change fun w => w.adopt code
  keepMethod register code
  match a.install, holder with
  | true, some c => change fun w => w.install c (.method code)
  | _, _ => pure ()
  showCode code

/-- Makes a program from its parts. -/
def assemble (tape : Tape) (literals : List LiteralRecipe) (names : VariableNames)
    (loops : List LoopMark) (a : Adoption) (register : Option String) : Ask Answer := do
  let literals ← literals.mapM literal
  let scope ← freshScope
  let p ← orCompileError (Program.make tape literals.toArray
    (describe names.arguments .argument names.depth scope)
    (describe names.locals .temporary names.depth scope) loops)
  adopt p a register

/-- A draft that is written, with the jumps so far. -/
structure Writing where
  draft : Draft
  jumps : Array Nat
deriving Inhabited

/-- Does one act of writing. -/
def write (d : Writing) : DraftStep → Ask Writing
  | .emit op operands => return { d with draft := d.draft.emit op operands }
  | .literal op l => do
    return { d with draft := ← orCompileError (d.draft.emitLiteral op (← literal l)) }
  | .jump op =>
    let (ip, draft) := d.draft.emitJump op
    return ⟨draft, d.jumps.push ip⟩
  | .here jump => do
    return { d with draft := ← orCompileError (d.draft.patchHere (d.jumps.getD jump 0)) }
  | .patch ip target => do return { d with draft := ← orCompileError (d.draft.patch ip target) }
  | .back head => do return { d with draft := ← orCompileError (d.draft.emitBack head) }
  | .splice register => do
    let block ← method register
    let next ← look fun w => w.supply.code
    let (draft, code) ← orCompileError (d.draft.splice block next)
    change fun w =>
      { w with supply := { w.supply with code } }.note (spliced block d.draft draft)
    return { d with draft }
  | .fill times op => return { d with draft := times.repeat (fun d => d.emit op []) d.draft }

/-- Makes a program by writing a draft. -/
def draft (script : List DraftStep) (names : VariableNames) (finish : Bool) (a : Adoption)
    (register : Option String) : Ask Answer := do
  let scope ← freshScope
  let d : Draft := .empty scope names.depth
  let d ← orCompileError (names.arguments.foldlM (fun d name => d.addArgument name) d)
  let d ← orCompileError (names.locals.foldlM (fun d name => d.addLocal name) d)
  let d ← script.foldlM write ⟨d, #[]⟩
  if finish then adopt (← orCompileError d.draft.finish) a register
  else return .unfinished d.draft.tape

end Parley.Session.Ask
