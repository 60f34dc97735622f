import Parley.Lowering

/-!
# Lowering to a depth

Lowering recurs on the sizes of expressions, which nothing can compute. Here it recurs on a number,
and where the number is used up it is left to itself (`expressionTo`). So it is the same whatever
the number is (`lowerTo_eq`), and computes if that is large enough.
-/

namespace Parley

namespace Lower

mutual

/-- Lowers an expression, down to a depth by itself. -/
def expressionTo (u : Subject) : Nat → List Scope → Expr → Lower Unit
  | 0, scopes, e => expression u scopes e
  | _ + 1, _, .constant c => constant c
  | _ + 1, scopes, .variable name => read u scopes name
  | n + 1, scopes, .assign name value => do
    expressionTo u n scopes value
    emit .dup []
    write u scopes name
  | n + 1, scopes, .send receiver selector arguments =>
    match inlined? u receiver selector arguments with
    | some c => controlTo u n scopes c
    | none => do
      checkArity selector arguments.length
      expressionTo u n scopes receiver
      expressionsTo u n scopes arguments
      emitLiteral (.send false) (.selector selector)
  | n + 1, scopes, .superSend selector arguments => do
    checkArity selector arguments.length
    read u scopes "self"
    expressionsTo u n scopes arguments
    emitLiteral (.send true) (.selector selector)
  | n + 1, scopes, .block parameters locals body => do
    let code ← blockTo u n scopes parameters locals body
    emitLiteral (.pushBlock code.program.needsContext) (.block code)
  | n + 1, scopes, .leave value => do
    expressionTo u n scopes value
    let level := depth scopes
    if level = 0 then emit .returnLocal [] else emit .returnNonLocal [level]

/-- Lowers expressions one after another. -/
def expressionsTo (u : Subject) : Nat → List Scope → List Expr → Lower Unit
  | 0, scopes, es => expressions u scopes es
  | _ + 1, _, [] => pure ()
  | n + 1, scopes, e :: rest => do
    expressionTo u n scopes e
    expressionsTo u n scopes rest

/-- Lowers a control-flow message. -/
def controlTo (u : Subject) : Nat → List Scope → Control → Lower Unit
  | 0, scopes, c => control u scopes c
  | n + 1, scopes, .branch condition on locals body => do
    expressionTo u n scopes condition
    let skip ← emitJump (.jump (.test on true) false)
    splice (← blockTo u n scopes [] locals body)
    patchHere skip
  | n + 1, scopes, .choice condition on locals₁ body₁ locals₂ body₂ => do
    expressionTo u n scopes condition
    let other ← emitJump (.jump (.test on false) false)
    splice (← blockTo u n scopes [] locals₁ body₁)
    let done ← emitJump (.jump .always false)
    patchHere other
    splice (← blockTo u n scopes [] locals₂ body₂)
    patchHere done
  | n + 1, scopes, .loop on locals₁ condition locals₂ body => do
    let head ← position
    splice (← blockTo u n scopes [] locals₁ condition)
    let done ← emitJump (.jump (.test on false) false)
    splice (← blockTo u n scopes [] locals₂ body)
    emit .drop []
    emitBack head
    patchHere done
    emit .pushNil []
  | n + 1, scopes, .count start limit parameter locals body => do
    expressionTo u n scopes start
    expressionTo u n scopes limit
    emit .dupSecond []
    let code ← blockTo u n scopes [parameter] locals body
    let slot ← match code.program.arguments[1]? with
      | some v => onDraft fun d => d.mergeLocal v
      | none => throw (.splice "loop body without an index argument")
    let head ← position
    let done ← emitJump (.jump .greater false)
    emit .dup []
    emit (.pop .temporary) [slot, 0]
    splice code
    emit .drop []
    emit (.step true) []
    emitBack head
    patchHere done

/-- Lowers a block to code of its own. -/
def blockTo (u : Subject) : Nat → List Scope → (parameters locals : List String) → List Expr →
    Lower Code
  | 0, scopes, parameters, locals, body => block u scopes parameters locals body
  | n + 1, scopes, parameters, locals, body => do
    modify fun l => { l with blocks := l.blocks + 1 }
    let l ← get
    let signature := u.selector ++ "[" ++ l.blocks.repr ++ "]"
    let inner ← openScope scopes "$block" parameters locals
    if body.isEmpty then emit .pushNil []
    statementsTo u n inner body
    let code ← closeScope u signature true
    modify fun m => { m with draft := l.draft }
    return code

/-- Lowers the statements of a block. -/
def statementsTo (u : Subject) : Nat → List Scope → List Expr → Lower Unit
  | 0, scopes, es => statements u scopes es
  | _ + 1, _, [] => emit .returnLocal []
  | n + 1, scopes, e :: rest => do
    expressionTo u n scopes e
    if e.isLeave then pure ()
    else
      if !rest.isEmpty then emit .drop []
      statementsTo u n scopes rest

end

/-- To whatever depth, it is lowering. -/
structure Unrolled (u : Subject) (n : Nat) : Prop where
  expression : ∀ scopes e, expressionTo u n scopes e = Lower.expression u scopes e
  expressions : ∀ scopes es, expressionsTo u n scopes es = Lower.expressions u scopes es
  control : ∀ scopes c, controlTo u n scopes c = Lower.control u scopes c
  block : ∀ scopes parameters locals body,
    blockTo u n scopes parameters locals body = Lower.block u scopes parameters locals body
  statements : ∀ scopes es, statementsTo u n scopes es = Lower.statements u scopes es

theorem unrolled (u : Subject) (n : Nat) : Unrolled u n := by
  induction n with
  | zero =>
    constructor <;> intros
    · rw [expressionTo]
    · rw [expressionsTo]
    · rw [controlTo]
    · rw [blockTo]
    · rw [statementsTo]
  | succ n ih =>
    refine ⟨fun scopes e => ?_, fun scopes es => ?_, fun scopes c => ?_, fun scopes ps ls body =>
      ?_,
      fun scopes es => ?_⟩
    · cases e with
      | constant | «variable» => rw [expressionTo, Lower.expression]
      | assign => rw [expressionTo, Lower.expression, ih.expression]
      | send receiver selector arguments =>
        rw [expressionTo, Lower.expression]
        split <;> rename_i hi
        · split <;> rename_i hi'
          · rw [hi] at hi'
            cases hi'
            exact ih.control _ _
          · rw [hi] at hi'
            cases hi'
        · split <;> rename_i hi'
          · rw [hi] at hi'
            cases hi'
          · rw [ih.expression, ih.expressions]
      | superSend => rw [expressionTo, Lower.expression, ih.expressions]
      | block => rw [expressionTo, Lower.expression, ih.block]
      | leave => rw [expressionTo, Lower.expression, ih.expression]
    · cases es with
      | nil => rw [expressionsTo, Lower.expressions]
      | cons => rw [expressionsTo, Lower.expressions, ih.expression, ih.expressions]
    · cases c with
      | branch => rw [controlTo, Lower.control, ih.expression, ih.block]
      | choice => rw [controlTo, Lower.control, ih.expression, ih.block, ih.block]
      | loop => rw [controlTo, Lower.control, ih.block, ih.block]
      | count start limit parameter locals body =>
        rw [controlTo, ih.expression, ih.expression, ih.block]
        exact (Lower.control.eq_def u scopes (.count start limit parameter locals body)).symm
    · simp only [blockTo, Lower.block, ih.statements]
    · cases es with
      | nil => rw [statementsTo, Lower.statements]
      | cons => rw [statementsTo, Lower.statements, ih.expression, ih.statements]

/-- Lowers the statements of a method. -/
def methodStatementsTo (u : Subject) (n : Nat) (scopes : List Scope) : List Expr → Lower Unit
  | [] => emit .returnSelf []
  | e :: rest => do
    expressionTo u n scopes e
    if e.isLeave then pure ()
    else
      emit .drop []
      methodStatementsTo u n scopes rest

theorem methodStatementsTo_eq (u : Subject) (n : Nat) (scopes : List Scope) (es : List Expr) :
    methodStatementsTo u n scopes es = methodStatements u scopes es := by
  induction es with
  | nil => rfl
  | cons e rest ih => rw [methodStatementsTo, methodStatements, (unrolled u n).expression, ih]

/-- Lowers a method. -/
def methodTo (u : Subject) (n : Nat) (m : MethodTree) : Lower Code := do
  if m.selector.arity ≠ m.parameters.length then
    throw (.invalid (m.selector.hashed ++ " takes " ++ m.selector.arity.repr ++ " arguments, " ++
      m.parameters.length.repr ++ " declared"))
  let scopes ← openScope [] "self" m.parameters m.locals
  methodStatementsTo u n scopes m.body
  closeScope u m.selector false

theorem methodTo_eq (u : Subject) (n : Nat) (m : MethodTree) : methodTo u n m = method u m := by
  simp only [methodTo, method, methodStatementsTo_eq]

end Lower

/-- What comes of lowering a method tree to a depth. -/
def MethodTree.lowerTo (n : Nat) (m : MethodTree) (holder : ClassRef) (fields : List String)
    (inlining : Bool) (supply : Supply) : Lowered :=
  let u : Subject := ⟨holder, fields, m.selector, inlining⟩
  match (Lower.methodTo u n m).run ⟨default, 0, supply, []⟩ with
  | .ok code l => ⟨.ok code, l.supply, l.events⟩
  | .error e l => ⟨.error e, l.supply, l.events⟩

theorem MethodTree.lowerTo_eq (n : Nat) (m : MethodTree) (holder : ClassRef) (fields : List String)
    (inlining : Bool) (supply : Supply) :
    m.lowerTo n holder fields inlining supply = m.lower holder fields inlining supply := by
  rw [lowerTo, Lower.methodTo_eq]
  rfl

end Parley
