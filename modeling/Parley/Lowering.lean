import Parley.Scope
import Parley.Splice
import Parley.Trace
import Parley.Tree

/-!
# Lowering trees

A method tree is lowered to code in one pass, scope by scope. A block becomes code of its own,
with a signature made of the selector and the number of the block in the method, and an
instruction that makes a closure of it.

Control-flow messages with literal blocks are lowered to jumps. The blocks are compiled like any
other and then spliced into the program of the scope around them; each form leaves one value on
the stack, as the message would. A message whose arguments are not literal blocks, or not of the
right number of parameters, is sent.
-/

namespace Parley

/-- Numbers that were never given out. -/
structure Supply where
  /-- The next scope. -/
  scope : Nat
  /-- The next string. -/
  string : Nat
  /-- The next code. -/
  code : Nat
  /-- The next primitive. -/
  primitive : Nat
deriving DecidableEq, Inhabited

/-- What stays the same while a method is lowered. -/
structure Subject where
  /-- The class the method is for. -/
  holder : ClassRef
  /-- The names of its fields. -/
  fields : List String
  selector : Selector
  /-- Whether control-flow messages are lowered to jumps. -/
  inlining : Bool

/-- What changes while a method is lowered. -/
structure Lowering where
  /-- The program of the innermost scope. -/
  draft : Draft
  /-- The blocks met so far. -/
  blocks : Nat
  supply : Supply
  /-- What was reported, the last first. -/
  events : List Event
deriving Inhabited

/-- A step of lowering. -/
abbrev Lower := EStateM CompileError Lowering

/-- The report that a block was spliced into a draft. -/
def spliced (block : Code) (before after : Draft) : Event :=
  ⟨.trace, Topic.inlining, "inlined block",
    [("block", block.signature), ("from", block.program.tape.size.repr),
      ("emitted", (after.position - before.position).repr)]⟩

namespace Lower

/-- Writes an instruction. -/
def emit (op : Opcode) (operands : List UInt8) : Lower Unit :=
  modify fun l => { l with draft := l.draft.emit op operands }

/-- Changes the draft, unless that fails. -/
def onDraft {α : Type} (f : Draft → Except CompileError (α × Draft)) : Lower α := do
  let l ← get
  match f l.draft with
  | .error e => throw e
  | .ok (a, draft) =>
    set { l with draft }
    return a

/-- Changes the draft and nothing else, unless that fails. -/
def changeDraft (f : Draft → Except CompileError Draft) : Lower Unit :=
  onDraft fun d => (f d).map fun d => ((), d)

/-- Writes an instruction with a literal operand. -/
def emitLiteral (op : Opcode) (l : Literal Code) : Lower Unit :=
  changeDraft fun d => d.emitLiteral op l

/-- The offset of the next instruction. -/
def position : Lower Nat := do
  return (← get).draft.position

/-- Writes a jump without a target. -/
def emitJump (op : Opcode) : Lower Nat :=
  onDraft fun d => .ok (d.emitJump op)

/-- Points a jump to the next instruction. -/
def patchHere (jump : Nat) : Lower Unit :=
  changeDraft fun d => d.patchHere jump

/-- Writes a jump back. -/
def emitBack (head : Nat) : Lower Unit :=
  changeDraft fun d => d.emitBack head

/-- A number for a scope. -/
def freshScope : Lower Nat := do
  let l ← get
  set { l with supply := { l.supply with scope := l.supply.scope + 1 } }
  return l.supply.scope

/-- A number for a string. -/
def freshString : Lower Nat := do
  let l ← get
  set { l with supply := { l.supply with string := l.supply.string + 1 } }
  return l.supply.string

/-- A number for a code. -/
def freshCode : Lower Nat := do
  let l ← get
  set { l with supply := { l.supply with code := l.supply.code + 1 } }
  return l.supply.code

/-! ### Scopes -/

/-- The level of the innermost scope, counted from the method. -/
def depth (scopes : List Scope) : UInt8 :=
  UInt8.ofNat (scopes.length - 1)

/-- Opens a scope inside others, with an empty program, and declares its variables. -/
def openScope (outer : List Scope) (first : String) (parameters locals : List String) :
    Lower (List Scope) := do
  if 255 < outer.length then throw (.limit "blocks nested too deeply")
  let origin ← freshScope
  modify fun l => { l with draft := .empty origin (UInt8.ofNat outer.length) }
  (first :: parameters).forM fun name => changeDraft fun d => d.addArgument name
  locals.forM fun name => changeDraft fun d => d.addLocal name
  return ⟨first :: parameters, locals⟩ :: outer

/-- The code of the innermost scope. -/
def closeScope (u : Subject) (signature : Selector) (isBlock : Bool) : Lower Code := do
  match (← get).draft.finish with
  | .error e => throw e
  | .ok program => return .mk (← freshCode) signature (some u.holder) isBlock program

/-- Splices a block into the program of the innermost scope. -/
def splice (block : Code) : Lower Unit := do
  let l ← get
  match l.draft.splice block l.supply.code with
  | .error e => throw e
  | .ok (draft, code) =>
    set { l with
      draft
      supply := { l.supply with code }
      events := spliced block l.draft draft :: l.events }

/-! ### Variables and constants -/

/-- Pushes a constant. -/
def constant : Constant → Lower Unit
  | .nil => emit .pushNil []
  | .bool b => emitLiteral .pushConstant (.value (.bool b))
  | .int i =>
    if i = 0 then emit .pushZero []
    else if i = 1 then emit .pushOne []
    else emitLiteral .pushConstant (.value (.int i))
  | .double d => emitLiteral .pushConstant (.value (.double d))
  | .string s => do
    let n ← freshString
    emitLiteral .pushConstant (.value (.string (.string n) s))
  | .symbol s => emitLiteral .pushConstant (.value (.symbol s))

/-- Pushes what a name denotes. -/
def read (u : Subject) (scopes : List Scope) (name : String) : Lower Unit :=
  match Scope.resolve scopes u.fields name with
  | .receiver level => if level = 0 then emit .pushSelf [] else emit (.push .argument) [0, level]
  | .argument slot level => emit (.push .argument) [slot, level]
  | .temporary slot level => emit (.push .temporary) [slot, level]
  | .field index level => emit (.push .field) [index, level]
  | .constant .nil => emit .pushNil []
  | .constant v => emitLiteral .pushConstant (.value v)
  | .global name => emitLiteral .pushGlobal (.global name)

/-- Pops into the variable that a name denotes. -/
def write (u : Subject) (scopes : List Scope) (name : String) : Lower Unit :=
  match Scope.resolve scopes u.fields name with
  | .argument slot level => emit (.pop .argument) [slot, level]
  | .temporary slot level => emit (.pop .temporary) [slot, level]
  | .field index level => emit (.pop .field) [index, level]
  | .receiver _ | .constant _ => throw (.invalid ("cannot assign to '" ++ name ++ "'"))
  | .global _ =>
    throw (.invalid ("assignment to undeclared variable '" ++ name ++ "' in " ++
      u.selector.hashed))

/-- Refuses a message with a wrong number of arguments. -/
def checkArity (selector : Selector) (given : Nat) : Lower Unit :=
  if selector.arity = given then pure ()
  else
    throw (.invalid (selector.hashed ++ " sent with " ++ given.repr ++ " arguments, takes " ++
      selector.arity.repr))

/-! ### Control flow -/

/-- A control-flow message whose arguments are literal blocks of the right shape. -/
inductive Control where
  /-- One branch; the other answers nil. -/
  | branch (condition : Expr) (on : Bool) (locals : List String) (body : List Expr)
  /-- Two branches, the first one taken if the condition is not `on`. -/
  | choice (condition : Expr) (on : Bool) (locals₁ : List String) (body₁ : List Expr)
      (locals₂ : List String) (body₂ : List Expr)
  /-- A loop that ends when the condition is `on`. -/
  | loop (on : Bool) (locals₁ : List String) (condition : List Expr) (locals₂ : List String)
      (body : List Expr)
  /-- A loop over the integers between two bounds. -/
  | count (start limit : Expr) (parameter : String) (locals : List String) (body : List Expr)

/-- The control-flow message that a send is, if it is one. -/
def control? (receiver : Expr) (selector : Selector) (arguments : List Expr) : Option Control :=
  match selector, arguments with
  | "ifTrue:", [.block [] locals body] => some (.branch receiver false locals body)
  | "ifFalse:", [.block [] locals body] => some (.branch receiver true locals body)
  | "ifTrue:ifFalse:", [.block [] ls₁ body₁, .block [] ls₂ body₂] =>
    some (.choice receiver false ls₁ body₁ ls₂ body₂)
  | "ifFalse:ifTrue:", [.block [] ls₁ body₁, .block [] ls₂ body₂] =>
    some (.choice receiver true ls₁ body₁ ls₂ body₂)
  | "whileTrue:", [.block [] ls₂ body] =>
    match receiver with
    | .block [] ls₁ condition => some (.loop false ls₁ condition ls₂ body)
    | _ => none
  | "whileFalse:", [.block [] ls₂ body] =>
    match receiver with
    | .block [] ls₁ condition => some (.loop true ls₁ condition ls₂ body)
    | _ => none
  | "to:do:", [limit, .block [parameter] locals body] =>
    some (.count receiver limit parameter locals body)
  | _, _ => none

/-- How large the parts of a control-flow message are. -/
noncomputable def Control.size : Control → Nat
  | .branch condition _ _ body => sizeOf condition + sizeOf body
  | .choice condition _ _ body₁ _ body₂ => sizeOf condition + sizeOf body₁ + sizeOf body₂
  | .loop _ _ condition _ body => sizeOf condition + sizeOf body
  | .count start limit _ _ body => sizeOf start + sizeOf limit + sizeOf body

/-- The control-flow message that a send is lowered as, if sends are not all sent. -/
def inlined? (u : Subject) (receiver : Expr) (selector : Selector) (arguments : List Expr) :
    Option Control :=
  if u.inlining then control? receiver selector arguments else none

theorem control?_size {receiver : Expr} {selector : Selector} {arguments : List Expr}
    {c : Control} (h : control? receiver selector arguments = some c) :
    c.size + 1 < sizeOf (Expr.send receiver selector arguments) := by
  unfold control? at h
  split at h <;> (try split at h) <;> first
    | (injection h with h; subst h; simp [Control.size]; omega)
    | cases h

theorem inlined?_size {u : Subject} {receiver : Expr} {selector : Selector}
    {arguments : List Expr} {c : Control} (h : inlined? u receiver selector arguments = some c) :
    c.size + 1 < sizeOf (Expr.send receiver selector arguments) := by
  unfold inlined? at h
  split at h
  · exact control?_size h
  · cases h

mutual

/-- Lowers an expression, which leaves one value on the stack. -/
def expression (u : Subject) (scopes : List Scope) : Expr → Lower Unit
  | .constant c => constant c
  | .variable name => read u scopes name
  | .assign name value => do
    expression u scopes value
    emit .dup []
    write u scopes name
  | .send receiver selector arguments =>
    match _h : inlined? u receiver selector arguments with
    | some c => control u scopes c
    | none => do
      checkArity selector arguments.length
      expression u scopes receiver
      expressions u scopes arguments
      emitLiteral (.send false) (.selector selector)
  | .superSend selector arguments => do
    checkArity selector arguments.length
    read u scopes "self"
    expressions u scopes arguments
    emitLiteral (.send true) (.selector selector)
  | .block parameters locals body => do
    let code ← block u scopes parameters locals body
    emitLiteral (.pushBlock code.program.needsContext) (.block code)
  | .leave value => do
    expression u scopes value
    let level := depth scopes
    if level = 0 then emit .returnLocal [] else emit .returnNonLocal [level]
termination_by e => (sizeOf e, 0)
decreasing_by
  all_goals first
    | (have h := inlined?_size ‹_›; exact Prod.Lex.left _ _ h)
    | decreasing_tactic

/-- Lowers expressions one after another. -/
def expressions (u : Subject) (scopes : List Scope) : List Expr → Lower Unit
  | [] => pure ()
  | e :: rest => do
    expression u scopes e
    expressions u scopes rest
termination_by es => (sizeOf es, 0)

/-- Lowers a control-flow message. -/
def control (u : Subject) (scopes : List Scope) (c : Control) : Lower Unit :=
  match c with
  | .branch condition on locals body => do
    expression u scopes condition
    let skip ← emitJump (.jump (.test on true) false)
    splice (← block u scopes [] locals body)
    patchHere skip
  | .choice condition on locals₁ body₁ locals₂ body₂ => do
    expression u scopes condition
    let other ← emitJump (.jump (.test on false) false)
    splice (← block u scopes [] locals₁ body₁)
    let done ← emitJump (.jump .always false)
    patchHere other
    splice (← block u scopes [] locals₂ body₂)
    patchHere done
  | .loop on locals₁ condition locals₂ body => do
    let head ← position
    splice (← block u scopes [] locals₁ condition)
    let done ← emitJump (.jump (.test on false) false)
    splice (← block u scopes [] locals₂ body)
    emit .drop []
    emitBack head
    patchHere done
    emit .pushNil []
  | .count start limit parameter locals body => do
    -- the stack during the loop: start, limit, index
    expression u scopes start
    expression u scopes limit
    emit .dupSecond []
    let code ← block u scopes [parameter] locals body
    let slot ← match code.program.arguments[1]? with
      | some v => onDraft fun d => d.mergeLocal v
      | none => throw (.splice "loop body without an index argument")
    let head ← position
    let done ← emitJump (.jump .greater false)
    emit .dup []
    emit (.pop .temporary) [slot, 0]
    splice code
    emit .drop []
    emit (.step true) []
    emitBack head
    patchHere done
termination_by (c.size + 1, 0)
decreasing_by
  all_goals
    apply Prod.Lex.left
    simp only [Control.size]
    omega

/-- Lowers a block to code of its own. The draft of the scope around it is as before then. -/
def block (u : Subject) (scopes : List Scope) (parameters locals : List String)
    (body : List Expr) : Lower Code := do
  modify fun l => { l with blocks := l.blocks + 1 }
  let l ← get
  let signature := u.selector ++ "[" ++ l.blocks.repr ++ "]"
  let inner ← openScope scopes "$block" parameters locals
  if body.isEmpty then emit .pushNil []
  statements u inner body
  let code ← closeScope u signature true
  modify fun m => { m with draft := l.draft }
  return code
termination_by (sizeOf body, 1)

/-- Lowers the statements of a block, whose last value is the value of the block. Nothing behind
    a return is lowered. -/
def statements (u : Subject) (scopes : List Scope) : List Expr → Lower Unit
  | [] => emit .returnLocal []
  | e :: rest => do
    expression u scopes e
    if e.isLeave then pure ()
    else
      if !rest.isEmpty then emit .drop []
      statements u scopes rest
termination_by es => (sizeOf es, 0)

end

/-- Lowers the statements of a method, which answers its receiver unless it returns something
    else. -/
def methodStatements (u : Subject) (scopes : List Scope) : List Expr → Lower Unit
  | [] => emit .returnSelf []
  | e :: rest => do
    expression u scopes e
    if e.isLeave then pure ()
    else
      emit .drop []
      methodStatements u scopes rest

/-- Lowers a method. -/
def method (u : Subject) (m : MethodTree) : Lower Code := do
  if m.selector.arity ≠ m.parameters.length then
    throw (.invalid (m.selector.hashed ++ " takes " ++ m.selector.arity.repr ++ " arguments, " ++
      m.parameters.length.repr ++ " declared"))
  let scopes ← openScope [] "self" m.parameters m.locals
  methodStatements u scopes m.body
  closeScope u m.selector false

end Lower

/-- What comes of lowering a method: the code or why there is none, the numbers left, and what
    was reported. -/
structure Lowered where
  result : Except CompileError Code
  supply : Supply
  /-- What was reported, the last first. -/
  events : List Event

/-- Lowers a method tree for a class with the fields given. -/
def MethodTree.lower (m : MethodTree) (holder : ClassRef) (fields : List String)
    (inlining : Bool) (supply : Supply) : Lowered :=
  let u : Subject := ⟨holder, fields, m.selector, inlining⟩
  match (Lower.method u m).run ⟨default, 0, supply, []⟩ with
  | .ok code l => ⟨.ok code, l.supply, l.events⟩
  | .error e l => ⟨.error e, l.supply, l.events⟩

end Parley
