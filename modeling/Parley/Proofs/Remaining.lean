import Mathlib.Data.List.Nodup
import Parley.Proofs.Closing
import Parley.Proofs.Counting
import Std.Data.String.ToNat

/-!
# The blocks that remain

Lowering numbers the blocks of a method as it meets them, and meets nothing behind a return. A block
that is the condition, a branch or the body of a control-flow message is spliced into the code
around it, if such messages are lowered to jumps. Any other block *remains*, also one inside a block
that is spliced (`MethodTree.remaining`).

* `Census.ascends`: the blocks that remain have their numbers in the order in which they are
  written, no two the same;
* `lower_closures`: the code of a method makes closures of the blocks that remain of it, with one
  instruction for each, and of no others.
-/

namespace Parley

/-! ### Signatures -/

/-- The signature of a block of a method. -/
def blockSignature (selector : Selector) (number : Nat) : Selector :=
  selector ++ "[" ++ number.repr ++ "]"

theorem blockSignature_inj {selector : Selector} {n k : Nat} :
    blockSignature selector n = blockSignature selector k ↔ n = k := by
  simp [blockSignature, Nat.repr_inj]

mutual

/-- The signatures in a tree, each before those inside. -/
def BlockTree.signatures : BlockTree → List Selector
  | .node signature _ inner => signature :: BlockTree.allSignatures inner

/-- The signatures in several trees. -/
def BlockTree.allSignatures : List BlockTree → List Selector
  | [] => []
  | t :: rest => t.signatures ++ BlockTree.allSignatures rest

end

theorem BlockTree.allSignatures_append (ts us : List BlockTree) :
    allSignatures (ts ++ us) = allSignatures ts ++ allSignatures us := by
  induction ts with
  | nil => rfl
  | cons t rest ih => rw [List.cons_append, allSignatures, allSignatures, ih, List.append_assoc]

/-! ### Counting blocks -/

/-- What comes of the blocks in a part of a method. -/
structure Census (selector : Selector) where
  /-- The blocks that remain, and how many blocks have been met in all, given how many were met
      before. -/
  visit : Nat → List BlockTree × Nat
  le : ∀ n, n ≤ (visit n).2
  ascends : ∀ n, ∃ numbers : List Nat,
    BlockTree.allSignatures (visit n).1 = numbers.map (blockSignature selector) ∧
      numbers.Pairwise (· < ·) ∧ ∀ k ∈ numbers, n < k ∧ k ≤ (visit n).2

namespace Census

variable {selector : Selector}

/-- There are no blocks. -/
def none : Census selector where
  visit n := ([], n)
  le _ := le_rfl
  ascends _ := ⟨[], rfl, .nil, nofun⟩

/-- One part comes after another. -/
def append (x y : Census selector) : Census selector where
  visit n :=
    let (ts, n) := x.visit n
    let (us, n) := y.visit n
    (ts ++ us, n)
  le n := (x.le n).trans (y.le _)
  ascends n := by
    obtain ⟨ks, hx, hks, hin⟩ := x.ascends n
    obtain ⟨js, hy, hjs, hin'⟩ := y.ascends (x.visit n).2
    refine ⟨ks ++ js, ?_, List.pairwise_append.2 ⟨hks, hjs, fun k hk j hj => ?_⟩, fun k hk => ?_⟩
    · rw [BlockTree.allSignatures_append, hx, hy, List.map_append]
    · exact (hin k hk).2.trans_lt (hin' j hj).1
    · rcases List.mem_append.1 hk with hk | hk
      · exact ⟨(hin k hk).1, (hin k hk).2.trans (y.le _)⟩
      · exact ⟨(x.le n).trans_lt (hin' k hk).1, (hin' k hk).2⟩

instance : Append (Census selector) := ⟨append⟩

/-- A block that does not remain, but what remains of its body does. -/
def spliced (body : Census selector) : Census selector where
  visit n := body.visit (n + 1)
  le n := n.le_succ.trans (body.le _)
  ascends n := by
    obtain ⟨ks, h, hks, hin⟩ := body.ascends (n + 1)
    exact ⟨ks, h, hks, fun k hk => ⟨n.lt_succ_self.trans (hin k hk).1, (hin k hk).2⟩⟩

/-- A block that remains. -/
def closed (parameters : Nat) (body : Census selector) : Census selector where
  visit n :=
    let (ts, k) := body.visit (n + 1)
    ([.node (blockSignature selector (n + 1)) parameters ts], k)
  le n := n.le_succ.trans (body.le _)
  ascends n := by
    obtain ⟨ks, h, hks, hin⟩ := body.ascends (n + 1)
    refine ⟨(n + 1) :: ks, ?_, List.pairwise_cons.2 ⟨fun k hk => (hin k hk).1, hks⟩, fun k hk => ?_⟩
    · simp only [BlockTree.allSignatures, BlockTree.signatures, List.append_nil, List.map_cons]
      rw [h]
    · rcases List.mem_cons.1 hk with rfl | hk
      · exact ⟨n.lt_succ_self, body.le _⟩
      · exact ⟨n.lt_succ_self.trans (hin k hk).1, (hin k hk).2⟩

/-- No two blocks that remain have the same signature. -/
theorem nodup (x : Census selector) (n : Nat) : (BlockTree.allSignatures (x.visit n).1).Nodup := by
  obtain ⟨ks, h, hks, -⟩ := x.ascends n
  rw [h]
  exact List.Nodup.map (fun _ _ => blockSignature_inj.1) (hks.imp Nat.ne_of_lt)

end Census

/-! ### The blocks of a tree -/

/-- The control-flow message as which a send is lowered to jumps, if such messages are. -/
def Lower.qualifying? (inlining : Bool) (receiver : Expr) (selector : Selector)
    (arguments : List Expr) : Option Control :=
  if inlining then control? receiver selector arguments else none

theorem Lower.qualifying?_size {inlining : Bool} {receiver : Expr} {selector : Selector}
    {arguments : List Expr} {c : Control}
    (h : qualifying? inlining receiver selector arguments = some c) :
    c.size + 1 < sizeOf (Expr.send receiver selector arguments) :=
  control?_size (Option.ite_none_right_eq_some.1 h).2

section

variable (selector : Selector) (inlining : Bool)

mutual

/-- The blocks in an expression. -/
def Expr.census : Expr → Census selector
  | .constant _ | .variable _ => .none
  | .assign _ value => value.census
  | .send receiver s arguments =>
    match _h : Lower.qualifying? inlining receiver s arguments with
    | some c => c.census
    | none => receiver.census ++ Expr.censuses arguments
  | .superSend _ arguments => Expr.censuses arguments
  | .block parameters _ body => .closed parameters.length (Expr.bodyCensus body)
  | .leave value => value.census
termination_by e => (sizeOf e, 0)
decreasing_by
  all_goals first
    | (have h := Lower.qualifying?_size ‹_›; exact Prod.Lex.left _ _ h)
    | decreasing_tactic

/-- The blocks in several expressions, one after another. -/
def Expr.censuses : List Expr → Census selector
  | [] => .none
  | e :: rest => e.census ++ Expr.censuses rest
termination_by es => (sizeOf es, 0)

/-- The blocks in a control-flow message that is lowered to jumps: those that it consists of do not
    remain. -/
def Lower.Control.census : Lower.Control → Census selector
  | .branch condition _ _ body => condition.census ++ (Expr.bodyCensus body).spliced
  | .choice condition _ _ body₁ _ body₂ =>
    condition.census ++ (Expr.bodyCensus body₁).spliced ++ (Expr.bodyCensus body₂).spliced
  | .loop _ _ condition _ body =>
    (Expr.bodyCensus condition).spliced ++ (Expr.bodyCensus body).spliced
  | .count start limit _ _ body => start.census ++ limit.census ++ (Expr.bodyCensus body).spliced
termination_by c => (c.size + 1, 0)
decreasing_by
  all_goals
    apply Prod.Lex.left
    simp only [Lower.Control.size]
    omega

/-- The blocks in statements, up to the first return. -/
def Expr.bodyCensus : List Expr → Census selector
  | [] => .none
  | e :: rest => if e.isLeave then e.census else e.census ++ Expr.bodyCensus rest
termination_by es => (sizeOf es, 0)

end

end

/-- The blocks of a method that remain, with those inside them that do, in the order in which they
    are written. -/
def MethodTree.remaining (m : MethodTree) (inlining : Bool) : List BlockTree :=
  ((Expr.bodyCensus m.selector inlining m.body).visit 0).1

theorem Expr.census_send {selector s : Selector} {inlining : Bool} {receiver : Expr}
    {arguments : List Expr} : (Expr.send receiver s arguments).census selector inlining =
      match Lower.qualifying? inlining receiver s arguments with
      | some c => c.census selector inlining
      | none => receiver.census selector inlining ++ Expr.censuses selector inlining arguments := by
  rw [census]
  split <;> simp [*]

/-! ### What lowering adds -/

namespace Lowering

variable {l l' l'' : Lowering} {selector : Selector} {x y : Census selector}
  {ts us : List BlockTree}

/-- Trees are added to those of the draft, and no block is met. -/
structure Adds (l l' : Lowering) (ts : List BlockTree) : Prop where
  closures : l'.draft.program.closures = l.draft.program.closures ++ ts
  blocks : l'.blocks = l.blocks

/-- The blocks of a part of the method are met, and those that remain are added to the draft. -/
structure Gains (l l' : Lowering) (x : Census selector) : Prop where
  closures : l'.draft.program.closures = l.draft.program.closures ++ (x.visit l.blocks).1
  blocks : l'.blocks = (x.visit l.blocks).2

/-- A block is met, and its code contains what remains of its body. The draft is as it was. -/
structure Encloses (l l' : Lowering) (c : Code) (parameters : Nat) (body : Census selector) :
    Prop where
  draft : l'.draft = l.draft
  tree : c.tree = .node (blockSignature selector (l.blocks + 1)) parameters
    (body.visit (l.blocks + 1)).1
  blocks : l'.blocks = (body.visit (l.blocks + 1)).2

theorem Adds.of_eq (hd : l'.draft.program.closures = l.draft.program.closures)
    (hb : l'.blocks = l.blocks) : l.Adds l' [] :=
  ⟨by rw [hd, List.append_nil], hb⟩

theorem Adds.trans (h : l.Adds l' ts) (h' : l'.Adds l'' us) : l.Adds l'' (ts ++ us) :=
  ⟨by rw [h'.closures, h.closures, List.append_assoc], h'.blocks.trans h.blocks⟩

/-- What adds nothing may come before. -/
theorem Adds.cons (h : l.Adds l' []) (h' : l'.Adds l'' ts) : l.Adds l'' ts :=
  h.trans h'

/-- What adds nothing may come behind. -/
theorem Adds.concat (h : l.Adds l' ts) (h' : l'.Adds l'' []) : l.Adds l'' ts :=
  List.append_nil ts ▸ h.trans h'

theorem Adds.none (h : l.Adds l' []) : l.Gains l' (Census.none : Census selector) :=
  ⟨h.closures, h.blocks⟩

theorem Adds.then (h : l.Adds l' []) (h' : l'.Gains l'' x) : l.Gains l'' x :=
  ⟨by rw [h'.closures, h.closures, List.append_nil, h.blocks], by rw [h'.blocks, h.blocks]⟩

theorem Gains.append (h : l.Gains l' x) (h' : l'.Gains l'' y) : l.Gains l'' (x ++ y) :=
  ⟨by rw [h'.closures, h.closures, List.append_assoc, h.blocks]; rfl,
    by rw [h'.blocks, h.blocks]; rfl⟩

theorem Gains.then (h : l.Gains l' x) (h' : l'.Adds l'' []) : l.Gains l'' x :=
  ⟨by rw [h'.closures, h.closures, List.append_nil], h'.blocks.trans h.blocks⟩

variable {c : Code} {parameters : Nat}

/-- The block is spliced later, and does not remain. -/
theorem Encloses.spliced (h : l.Encloses l' c parameters x) (h' : l'.Adds l'' c.program.closures) :
    l.Gains l'' x.spliced := by
  have hinner : c.program.closures = (x.visit (l.blocks + 1)).1 := by
    have htree := c.tree_eq.symm.trans h.tree
    exact (BlockTree.node.inj htree).2.2
  refine ⟨?_, h'.blocks.trans h.blocks⟩
  rw [h'.closures, h.draft, hinner]
  rfl

/-- A closure is made of the block, which remains. -/
theorem Encloses.closed (h : l.Encloses l' c parameters x) (h' : l'.Adds l'' [c.tree]) :
    l.Gains l'' (x.closed parameters) := by
  refine ⟨?_, h'.blocks.trans h.blocks⟩
  rw [h'.closures, h.draft, h.tree]
  rfl

end Lowering

namespace Lower

variable {α : Type} {l : Lowering} {env frames : List Outline} {O K : Set (Nat × Nat)} {n : Nat}
  {S : Set (Literal Code)} {scopes : List Scope} {o : Outline} {u : Subject} {op : Opcode}

theorem onDraft_blocks {f : Draft → Except CompileError (α × Draft)} :
    (onDraft f).Runs l fun _ l' => l'.blocks = l.blocks := by
  intro a l' hr
  cases hf : f l.draft with
  | error e =>
    simp only [onDraft, get_bind, hf] at hr
    cases hr
  | ok r =>
    simp only [onDraft, get_bind, hf] at hr
    cases hr
    rfl

theorem changeDraft_blocks {f : Draft → Except CompileError Draft} :
    (changeDraft f).Runs l fun _ l' => l'.blocks = l.blocks :=
  onDraft_blocks

/-! ### Steps that make no closure -/

theorem emit_adds (h : l.draft.tape.Splits) (op : Opcode) (operands : List UInt8)
    (hn : operands.length + 1 = op.size) (hne : ∀ w, op ≠ .pushBlock w) :
    (emit op operands).Runs l fun _ l' => l.Adds l' [] := by
  rintro _ _ ⟨⟩
  exact .of_eq (Draft.emit_closures h hn hne) rfl

theorem emitLiteral_adds (h : l.Ready o scopes env O K n S) {m : Literal Code} (hsize : op.size = 2)
    (hne : ∀ w, op ≠ .pushBlock w) : (emitLiteral op m).Runs l fun _ l' => l.Adds l' [] :=
  (changeDraft_runs.and changeDraft_blocks).mono fun _ _ ⟨hd, hb⟩ =>
    .of_eq (h.stands.emitLiteral_closures hsize hne hd) hb

theorem emitSend_adds (h : l.Ready o scopes env O K n S) (toSuper : Bool) (selector : Selector) :
    (emitLiteral (.send toSuper) (.selector selector)).Runs l fun _ l' => l.Adds l' [] :=
  emitLiteral_adds h rfl nofun

theorem emitJump_adds (h : l.draft.tape.Splits) (j : Jump) :
    (emitJump (.jump j false)).Runs l fun _ l' => l.Adds l' [] := by
  rintro _ _ ⟨⟩
  have hn : [(0 : UInt8), 0].length + 1 = (Opcode.jump j false).size := rfl
  exact .of_eq (Draft.emit_closures h hn nofun) rfl

theorem patchHere_adds {x : Nat × Nat} (h : l.Ready o scopes env O K n S) (hx : x ∈ O) :
    (patchHere x.1).Runs l fun _ l' => l.Adds l' [] :=
  (changeDraft_runs.and changeDraft_blocks).mono fun _ _ ⟨hd, hb⟩ =>
    .of_eq (h.stands.patch_closures hx (h.stands.lt_position hx) hd) hb

theorem emitBack_adds (h : l.draft.tape.Splits) (head : Nat) :
    (emitBack head).Runs l fun _ l' => l.Adds l' [] :=
  (changeDraft_runs.and changeDraft_blocks).mono fun _ _ ⟨hd, hb⟩ =>
    .of_eq (Draft.emitBack_closures h hd) hb

theorem mergeLocal_adds (v : Variable) :
    (onDraft fun d => d.mergeLocal v).Runs l fun _ l' => l.Adds l' [] :=
  (onDraft_runs.and onDraft_blocks).mono fun _ _ ⟨hd, hb⟩ =>
    .of_eq (Program.closures_congr (Draft.mergeLocal_tape hd) (Draft.mergeLocal_literals hd)) hb

theorem constant_adds (h : l.Ready o scopes env O K n S) (c : Constant) :
    (constant c).Runs l fun _ l' => l.Adds l' [] := by
  have hvalue : ∀ {l : Lowering} (v : Value), l.Ready o scopes env O K n S →
      (emitLiteral .pushConstant (.value v)).Runs l fun _ l' => l.Adds l' [] :=
    fun v h => emitLiteral_adds h rfl (by simp)
  cases c with
  | nil => exact emit_adds h.splits .pushNil [] rfl (by simp)
  | bool _ | double _ | symbol _ => exact hvalue _ h
  | int i =>
    rw [constant]
    split
    · exact emit_adds h.splits .pushZero [] rfl (by simp)
    · split
      · exact emit_adds h.splits .pushOne [] rfl (by simp)
      · exact hvalue _ h
  | string s =>
    rw [constant]
    have hfresh : freshString.Runs l fun _ l' => l.Adds l' [] ∧ l'.Ready o scopes env O K n S := by
      rintro _ _ ⟨⟩
      exact ⟨.of_eq rfl rfl, h.stands, h.frame, h.declare, h.numbered⟩
    refine hfresh.bind ?_
    rintro _ _ ⟨a₁, h₁⟩
    exact (hvalue _ h₁).mono fun _ _ a₂ => a₁.cons a₂

theorem read_adds (h : l.Ready o scopes env O K n S) (u : Subject) (name : String) :
    (read u scopes name).Runs l fun _ l' => l.Adds l' [] := by
  rw [read]
  split
  · split
    · exact emit_adds h.splits .pushSelf [] rfl (by simp)
    · exact emit_adds h.splits (.push .argument) _ rfl (by simp)
  · exact emit_adds h.splits (.push .argument) _ rfl (by simp)
  · exact emit_adds h.splits (.push .temporary) _ rfl (by simp)
  · exact emit_adds h.splits (.push .field) _ rfl (by simp)
  · exact emit_adds h.splits .pushNil [] rfl (by simp)
  · exact emitLiteral_adds h rfl (by simp)
  · exact emitLiteral_adds h rfl (by simp)

theorem write_adds (h : l.draft.tape.Splits) (u : Subject) (scopes : List Scope) (name : String) :
    (write u scopes name).Runs l fun _ l' => l.Adds l' [] := by
  rw [write]
  split
  · exact emit_adds h (.pop .argument) _ rfl (by simp)
  · exact emit_adds h (.pop .temporary) _ rfl (by simp)
  · exact emit_adds h (.pop .field) _ rfl (by simp)
  all_goals rintro _ _ ⟨⟩

/-! ### Blocks that are pushed or spliced -/

theorem emitBlock_adds {c : Code} (h : l.Ready o scopes env O K n c.parts) :
    (emitLiteral (.pushBlock c.program.needsContext) (.block c)).Runs l fun _ l' =>
      l.Adds l' [c.tree] :=
  (changeDraft_runs.and changeDraft_blocks).mono fun _ _ ⟨hd, hb⟩ =>
    ⟨h.stands.emitBlock_closures h.numbered hd, hb⟩

theorem splice_adds {c : Code} (h : l.Ready o scopes env O K n c.parts)
    (hc : c.Lexical (l.draft.outline :: env)) :
    (splice c).Runs l fun _ l' => l.Adds l' c.program.closures := by
  intro a l' hr
  cases hs : l.draft.splice c l.supply.code with
  | error e =>
    simp only [splice, get_bind, hs] at hr
    cases hr
  | ok r =>
    simp only [splice, get_bind, hs] at hr
    cases hr
    exact ⟨h.stands.splice_closures hc h.numbered hs, rfl⟩

/-! ### Scopes -/

theorem forM_blocks {f : String → Draft → Except CompileError Draft} (names : List String) :
    (names.forM fun name => changeDraft (f name)).Runs l fun _ l' => l'.blocks = l.blocks := by
  induction names generalizing l with
  | nil => exact .pure rfl
  | cons name rest ih => exact changeDraft_blocks.bind fun _ _ h => ih.mono fun _ _ h' => h'.trans h

theorem openScope_blocks (outer : List Scope) (first : String) (parameters locals : List String) :
    (openScope outer first parameters locals).Runs l fun _ l' => l'.blocks = l.blocks := by
  unfold openScope
  extract_lets rest
  split
  · rintro _ _ ⟨⟩
  · have hfresh : freshScope.Runs l fun _ l' => l'.blocks = l.blocks := by
      rintro _ _ ⟨⟩
      rfl
    refine hfresh.bind fun origin l₁ h₁ => ?_
    have hempty : (modify fun l => { l with draft := .empty origin (UInt8.ofNat outer.length) } :
        Lower PUnit).Runs l₁ fun _ l' => l'.blocks = l₁.blocks := by
      rintro _ _ ⟨⟩
      rfl
    exact hempty.bind fun _ _ h₂ => (forM_blocks _).bind fun _ _ h₃ => (forM_blocks _).bind
      fun _ _ h₄ => .pure (h₄.trans (h₃.trans (h₂.trans h₁)))

/-- A program in which nothing is written makes no closure. -/
theorem closures_of_blank (h : l.draft.Blank o) : l.draft.program.closures = [] := by
  have htape : l.draft.program.tape = #[] := h.tape
  rw [Program.closures_eq, htape, Tape.starts, Tape.startsFrom]
  rfl

/-- What comes of a scope has the closures of its draft. -/
theorem closeScope_yields {op : Opcode} (h : l.draft.Complete env op) (signature : Selector)
    (isBlock : Bool) : (closeScope u signature isBlock).Runs l fun code l' =>
      code.signature = signature ∧ code.program.closures = l.draft.program.closures ∧
        l'.blocks = l.blocks := by
  obtain ⟨maxStack, hfinish⟩ := h.finish
  intro code l' hr
  simp only [closeScope, get_bind, hfinish] at hr
  cases hr
  exact ⟨rfl, Program.closures_congr rfl rfl, rfl⟩

/-- A loop over integers splices its body. -/
theorem countLoop_adds {code : Code} {slot : UInt8}
    (h : l.Ready o scopes env O K (n + 3) code.parts)
    (hc : code.Lexical (l.draft.outline :: env)) (hslot : slot.toNat < l.draft.outline.locals) :
    Runs (do
      let head ← position
      let done ← emitJump (.jump .greater false)
      emit .dup []
      emit (.pop .temporary) [slot, 0]
      splice code
      emit .drop []
      emit (.step true) []
      emitBack head
      patchHere done) l fun _ l' => l.Adds l' code.program.closures := by
  refine (position_runs.and (position_safe h.rebase).runs).bind ?_
  rintro head _ ⟨⟨rfl, rfl⟩, h₁⟩
  refine ((emitJump_safe h₁ (by simp) (by simp [Jump.effect]) fun _ => rfl).runs.and
    (emitJump_adds h₁.splits .greater)).bind ?_
  rintro done l₂ ⟨⟨hdone, h₂⟩, a₂⟩
  refine ((emitOp_safe .dup h₂ rfl rfl trivial (by simp [Jump.effect]) (by simp) rfl).runs.and
    (emit_adds h₂.splits .dup [] rfl (by simp))).bind ?_
  rintro _ l₃ ⟨h₃, a₃⟩
  refine ((popLocal_safe h₃ hslot).runs.and
    (emit_adds h₃.splits (.pop .temporary) [slot, 0] rfl (by simp))).bind ?_
  rintro _ l₄ ⟨h₄, a₄⟩
  have hc₄ : code.Lexical (l₄.draft.outline :: env) :=
    hc.mono (.cons h₄.frame (Outlines.Le.refl env))
  refine ((splice_safe h₄ hc₄).runs.and (splice_adds h₄ hc₄)).bind ?_
  rintro _ l₅ ⟨h₅, a₅⟩
  refine ((emitOp_safe .drop h₅ rfl rfl trivial (by simp) (by simp) rfl).runs.and
    (emit_adds h₅.splits .drop [] rfl (by simp))).bind ?_
  rintro _ l₆ ⟨h₆, a₆⟩
  refine ((emitOp_safe (.step true) h₆ rfl rfl trivial (by simp [Jump.effect]) (by simp)
    rfl).runs.and
    (emit_adds h₆.splits (.step true) [] rfl (by simp))).bind ?_
  rintro _ l₇ ⟨h₇, a₇⟩
  refine ((emitBack_safe h₇ (.inl rfl) (n + 1)).runs.and (emitBack_adds h₇.splits _)).bind ?_
  rintro _ l₈ ⟨h₈, a₈⟩
  have before := a₂.cons (a₃.cons (a₄.cons a₅))
  exact (patchHere_adds h₈ (Set.mem_insert (done, n + 1) _)).mono fun _ _ a₉ =>
    before.concat (a₆.cons (a₇.cons (a₈.cons a₉)))

/-! ### Control flow -/

/-- Wherever an expression is lowered, the draft gains the blocks of it that remain. -/
def ExpressionGains (u : Subject) (scopes : List Scope) (e : Expr) : Prop :=
  ∀ ⦃l : Lowering⦄ ⦃o : Outline⦄ ⦃env : List Outline⦄ ⦃O K : Set (Nat × Nat)⦄ ⦃n : Nat⦄,
    l.Ready o scopes env O K n ∅ →
      (expression u scopes e).Runs l fun _ l' => l.Gains l' (e.census u.selector u.inlining)

/-- Wherever a block is lowered, its code contains what remains of its body. -/
def BlockEncloses (u : Subject) (scopes : List Scope) (parameters locals : List String)
    (body : List Expr) : Prop :=
  ∀ ⦃l : Lowering⦄ ⦃frames : List Outline⦄, Scopes.Declare scopes frames → frames ≠ [] →
    (block u scopes parameters locals body).Runs l fun code l' =>
      l.Encloses l' code parameters.length (Expr.bodyCensus u.selector u.inlining body)

section Control

variable {condition start limit : Expr} {on : Bool} {parameter : String}
  {parameters locals locals₁ locals₂ : List String} {body body₁ body₂ : List Expr}

/-- An expression, and what is written behind it. -/
theorem ExpressionGains.bind {e : Expr} {f : Unit → Lower α} {post : α → Lowering → Prop}
    (he : ExpressionGains u scopes e) (h : l.Ready o scopes env O K n ∅)
    (hf : ∀ l', l'.Ready o scopes env O K (n + 1) ∅ →
      l.Gains l' (e.census u.selector u.inlining) → (f ()).Runs l' post) :
    (expression u scopes e >>= f).Runs l post :=
  ((expression_safe u e h).runs.and (he h)).bind fun _ l' ⟨h', g'⟩ => hf l' h' g'

/-- A block, and what is written behind it with its code at hand. -/
theorem BlockEncloses.bind {f : Code → Lower α} {post : α → Lowering → Prop}
    (hb : BlockEncloses u scopes parameters locals body) (h : l.Ready o scopes env O K n ∅)
    (hf : ∀ code l', l'.Ready o scopes env O K n code.parts →
      code.OfBlock (l'.draft.outline :: env) parameters body →
      l.Encloses l' code parameters.length (Expr.bodyCensus u.selector u.inlining body) →
      (f code).Runs l' post) :
    (block u scopes parameters locals body >>= f).Runs l post := by
  refine (((block_safe u scopes parameters locals body h.declare (by simp)).ready h).runs.and
    (hb h.declare (by simp))).bind ?_
  rintro code l' ⟨⟨h', hc⟩, b'⟩
  exact hf code l' h' hc b'

/-- A block that is put in place, and what is written behind it. -/
theorem BlockEncloses.inline {f : Unit → Lower α} {post : α → Lowering → Prop}
    (hb : BlockEncloses u scopes [] locals body) (h : l.Ready o scopes env O K n ∅)
    (hf : ∀ l', l'.Ready o scopes env O K (n + 1) ∅ →
      l.Gains l' (Expr.bodyCensus u.selector u.inlining body).spliced → (f ()).Runs l' post) :
    (block u scopes [] locals body >>= fun code => splice code >>= f).Runs l post := by
  refine hb.bind h fun code l₁ h₁ hc b₁ => ?_
  exact ((splice_safe h₁ hc.lexical).runs.and (splice_adds h₁ hc.lexical)).bind
    fun _ l₂ ⟨h₂, a₂⟩ => hf l₂ h₂ (b₁.spliced a₂)

theorem branch_gains (he : ExpressionGains u scopes condition)
    (hb : BlockEncloses u scopes [] locals body) (h : l.Ready o scopes env O K n ∅) :
    (control u scopes (.branch condition on locals body)).Runs l fun _ l' =>
      l.Gains l' (Control.census u.selector u.inlining (.branch condition on locals body)) := by
  rw [control, Control.census]
  refine he.bind h fun l₁ h₁ g₁ => ?_
  refine ((emitJump_safe h₁ (by simp) (by simp [Jump.effect]) fun _ => rfl).runs.and
    (emitJump_adds h₁.splits (.test on true))).bind ?_
  rintro skip l₂ ⟨⟨-, h₂⟩, a₂⟩
  refine hb.inline h₂ fun l₃ h₃ g₃ => ?_
  exact (patchHere_adds h₃ (Set.mem_insert (skip, _) _)).mono fun _ _ a₄ =>
    ((g₁.then a₂).append g₃).then a₄

theorem choice_gains (he : ExpressionGains u scopes condition)
    (hb₁ : BlockEncloses u scopes [] locals₁ body₁)
    (hb₂ : BlockEncloses u scopes [] locals₂ body₂) (h : l.Ready o scopes env O K n ∅) :
    (control u scopes (.choice condition on locals₁ body₁ locals₂ body₂)).Runs l fun _ l' =>
      l.Gains l' (Control.census u.selector u.inlining
        (.choice condition on locals₁ body₁ locals₂ body₂)) := by
  rw [control, Control.census]
  refine he.bind h fun l₁ h₁ g₁ => ?_
  refine ((emitJump_safe h₁ (by simp) (by simp [Jump.effect]) fun _ => rfl).runs.and
    (emitJump_adds h₁.splits (.test on false))).bind ?_
  rintro other l₂ ⟨⟨hother, h₂⟩, a₂⟩
  refine hb₁.inline h₂ fun l₃ h₃ g₃ => ?_
  refine ((emitAlways_safe h₃ n).runs.and (emitJump_adds h₃.splits .always)).bind ?_
  rintro done l₄ ⟨⟨hdone, h₄⟩, a₄⟩
  -- The jump to the other branch is closed first, and it is not the one to the end.
  have h₄ : l₄.Ready o scopes env (insert (other, n) (insert (done, n + 1) O)) K n ∅ :=
    Set.insert_comm _ _ _ ▸ h₄
  refine ((patchHere_safe h₄ ?_).runs.and
    (patchHere_adds h₄ (Set.mem_insert (other, n) _))).bind ?_
  · rintro x (rfl | hx)
    · exact (hdone _ (.inl rfl)).symm
    · exact hother x hx
  rintro _ l₅ ⟨h₅, a₅⟩
  refine hb₂.inline h₅ fun l₆ h₆ g₆ => ?_
  have g := (((g₁.then a₂).append g₃).then (a₄.cons a₅)).append g₆
  exact (patchHere_adds h₆ (Set.mem_insert (done, n + 1) _)).mono fun _ _ a₇ => g.then a₇

theorem loop_gains (hb₁ : BlockEncloses u scopes [] locals₁ body₁)
    (hb₂ : BlockEncloses u scopes [] locals₂ body₂) (h : l.Ready o scopes env O K n ∅) :
    (control u scopes (.loop on locals₁ body₁ locals₂ body₂)).Runs l fun _ l' =>
      l.Gains l' (Control.census u.selector u.inlining (.loop on locals₁ body₁ locals₂ body₂)) := by
  rw [control, Control.census]
  refine (position_runs.and (position_safe h).runs).bind ?_
  rintro head _ ⟨⟨rfl, rfl⟩, h₁⟩
  refine hb₁.inline h₁ fun l₂ h₂ g₂ => ?_
  refine ((emitJump_safe h₂ (by simp) (by simp [Jump.effect]) fun _ => rfl).runs.and
    (emitJump_adds h₂.splits (.test on false))).bind ?_
  rintro done l₃ ⟨⟨hdone, h₃⟩, a₃⟩
  refine hb₂.inline h₃ fun l₄ h₄ g₄ => ?_
  refine ((emitOp_safe .drop h₄ rfl rfl trivial (by omega) (by simp) rfl).runs.and
    (emit_adds h₄.splits .drop [] rfl (by simp))).bind ?_
  rintro _ l₅ ⟨h₅, a₅⟩
  refine ((emitBack_safe h₅ (.inl rfl) n).runs.and (emitBack_adds h₅.splits _)).bind ?_
  rintro _ l₆ ⟨h₆, a₆⟩
  refine ((patchHere_safe h₆ hdone).runs.and
    (patchHere_adds h₆ (Set.mem_insert (done, _) _))).bind ?_
  rintro _ l₇ ⟨h₇, a₇⟩
  have g := (g₂.then a₃).append g₄
  exact (emit_adds h₇.splits .pushNil [] rfl (by simp)).mono fun _ _ a₈ =>
    g.then (a₅.cons (a₆.cons (a₇.cons a₈)))

theorem count_gains (hstart : ExpressionGains u scopes start)
    (hlimit : ExpressionGains u scopes limit) (hb : BlockEncloses u scopes [parameter] locals body)
    (h : l.Ready o scopes env O K n ∅) :
    (control u scopes (.count start limit parameter locals body)).Runs l fun _ l' =>
      l.Gains l' (Control.census u.selector u.inlining
        (.count start limit parameter locals body)) := by
  rw [control, Control.census]
  refine hstart.bind h fun l₁ h₁ g₁ => ?_
  refine hlimit.bind h₁ fun l₂ h₂ g₂ => ?_
  refine ((emitOp_safe .dupSecond h₂ rfl rfl trivial (by omega) (by simp) rfl).runs.and
    (emit_adds h₂.splits .dupSecond [] rfl (by simp))).bind ?_
  rintro _ l₃ ⟨h₃, a₃⟩
  refine hb.bind h₃ fun code l₄ h₄ hc b₄ => ?_
  obtain ⟨v, hv⟩ : ∃ v, code.program.arguments[1]? = some v :=
    ⟨_, Array.getElem?_eq_getElem (by rw [hc.arguments]; simp)⟩
  simp only [hv]
  refine ((mergeLocal_safe h₄ v).runs.and (mergeLocal_adds v)).bind ?_
  rintro slot l₅ ⟨⟨hslot, hle, h₅⟩, a₅⟩
  have hc₅ := hc.lexical.mono (.cons hle (Outlines.Le.refl env))
  exact (countLoop_adds h₅ hc₅ hslot).mono fun _ _ a₆ =>
    ((g₁.append g₂).then a₃).append (b₄.spliced (a₅.cons a₆))

end Control

/-! ### Trees -/

mutual

theorem expression_gains (u : Subject) (scopes : List Scope) (e : Expr) :
    ExpressionGains u scopes e := by
  intro l o env O K n h
  match e with
  | .constant c =>
    rw [expression, Expr.census]
    exact (constant_adds h c).mono fun _ _ a => a.none
  | .variable name =>
    rw [expression, Expr.census]
    exact (read_adds h u name).mono fun _ _ a => a.none
  | .assign name value =>
    rw [expression, Expr.census]
    exact (expression_gains u scopes value).bind h fun _ h₁ g₁ =>
      ((emitOp_safe .dup h₁ rfl rfl trivial (by omega) nofun rfl).runs.and
        (emit_adds h₁.splits .dup [] rfl nofun)).bind fun _ _ ⟨h₂, a₂⟩ =>
        (write_adds h₂.splits u scopes name).mono fun _ _ a₃ => g₁.then (a₂.cons a₃)
  | .send receiver selector arguments =>
    rw [expression, Expr.census_send]
    split
    · rename_i c hc
      have hq : qualifying? u.inlining receiver selector arguments = some c := hc
      simp only [hq]
      exact control_gains u c h
    · rename_i hc
      have hq : qualifying? u.inlining receiver selector arguments = none := hc
      simp only [hq]
      refine (checkArity_safe l selector arguments.length).runs.bind ?_
      rintro _ _ ⟨rfl, ha⟩
      exact (expression_gains u scopes receiver).bind h fun _ h₁ g₁ =>
        ((expressions_safe u arguments h₁).runs.and (expressions_gains u arguments h₁)).bind
          fun _ _ ⟨h₂, g₂⟩ =>
          (emitSend_adds h₂ false selector).mono fun _ _ a₃ => (g₁.append g₂).then a₃
  | .superSend selector arguments =>
    rw [expression, Expr.census]
    refine (checkArity_safe l selector arguments.length).runs.bind ?_
    rintro _ _ ⟨rfl, ha⟩
    exact ((read_safe h u "self").runs.and (read_adds h u "self")).bind fun _ _ ⟨h₁, a₁⟩ =>
      ((expressions_safe u arguments h₁).runs.and (expressions_gains u arguments h₁)).bind
        fun _ _ ⟨h₂, g₂⟩ =>
        (emitSend_adds h₂ true selector).mono fun _ _ a₃ => a₁.then (g₂.then a₃)
  | .block parameters locals body =>
    rw [expression, Expr.census]
    exact (block_encloses u scopes parameters locals body).bind h fun _ _ h₁ _ b₁ =>
      (emitBlock_adds h₁).mono fun _ _ a₂ => b₁.closed a₂
  | .leave value =>
    rw [expression, Expr.census]
    refine (expression_gains u scopes value).bind h fun _ h₁ g₁ => ?_
    dsimp only
    split
    · exact (emit_adds h₁.splits .returnLocal [] rfl nofun).mono fun _ _ a₂ => g₁.then a₂
    · exact (emit_adds h₁.splits .returnNonLocal [_] rfl nofun).mono fun _ _ a₂ => g₁.then a₂
termination_by (sizeOf e, 0)
decreasing_by
  all_goals first
    | (have h := inlined?_size ‹_›; exact Prod.Lex.left _ _ h)
    | decreasing_tactic

theorem expressions_gains (u : Subject) (es : List Expr) {l : Lowering} {o : Outline}
    {scopes : List Scope} {env : List Outline} {O K : Set (Nat × Nat)} {n : Nat}
    (h : l.Ready o scopes env O K n ∅) : (expressions u scopes es).Runs l fun _ l' =>
      l.Gains l' (Expr.censuses u.selector u.inlining es) := by
  match es with
  | [] =>
    rw [expressions, Expr.censuses]
    exact .pure (Lowering.Adds.of_eq rfl rfl).none
  | e :: rest =>
    rw [expressions, Expr.censuses]
    exact (expression_gains u scopes e).bind h fun _ h₁ g₁ =>
      (expressions_gains u rest h₁).mono fun _ _ g₂ => g₁.append g₂
termination_by (sizeOf es, 0)

theorem control_gains (u : Subject) (c : Control) {l : Lowering} {o : Outline} {scopes : List Scope}
    {env : List Outline} {O K : Set (Nat × Nat)} {n : Nat} (h : l.Ready o scopes env O K n ∅) :
    (control u scopes c).Runs l fun _ l' => l.Gains l' (c.census u.selector u.inlining) := by
  match c with
  | .branch condition on locals body =>
    exact branch_gains (expression_gains u scopes condition)
      (block_encloses u scopes [] locals body) h
  | .choice condition on locals₁ body₁ locals₂ body₂ =>
    exact choice_gains (expression_gains u scopes condition)
      (block_encloses u scopes [] locals₁ body₁) (block_encloses u scopes [] locals₂ body₂) h
  | .loop on locals₁ condition locals₂ body =>
    exact loop_gains (block_encloses u scopes [] locals₁ condition)
      (block_encloses u scopes [] locals₂ body) h
  | .count start limit parameter locals body =>
    exact count_gains (expression_gains u scopes start) (expression_gains u scopes limit)
      (block_encloses u scopes [parameter] locals body) h
termination_by (c.size + 1, 0)
decreasing_by
  all_goals
    apply Prod.Lex.left
    simp only [Control.size]
    omega

theorem block_encloses (u : Subject) (scopes : List Scope) (parameters locals : List String)
    (body : List Expr) : BlockEncloses u scopes parameters locals body := by
  intro l frames h hne
  -- In the new scope only the body adds closures.
  have hbody : (block u scopes parameters locals body).Runs l fun code l' =>
      code.signature = blockSignature u.selector (l.blocks + 1) ∧
        code.program.closures =
          ((Expr.bodyCensus u.selector u.inlining body).visit (l.blocks + 1)).1 ∧
        l'.blocks = ((Expr.bodyCensus u.selector u.inlining body).visit (l.blocks + 1)).2 := by
    rw [block]
    have hcount : (modify fun l => { l with blocks := l.blocks + 1 } : Lower PUnit).Runs l
        fun _ l' => l'.blocks = l.blocks + 1 := by
      rintro _ _ ⟨⟩
      rfl
    refine hcount.bind fun _ l₁ h₁ => ?_
    rw [← h₁]
    have hget : ∀ {α : Type} {f : Lowering → Lower α} {post : α → Lowering → Prop},
        (f l₁).Runs l₁ post → (get >>= f).Runs l₁ post := fun h => h
    refine hget ?_
    extract_lets signature
    refine ((openScope_safe h "$block" parameters locals).runs.and
      ((openScope_blank scopes "$block" parameters locals).runs.and
        (openScope_blocks scopes "$block" parameters locals))).bind ?_
    rintro inner l₂ ⟨h₂, ⟨-, -, hblank⟩, hblocks⟩
    extract_lets rest
    have hrest : ∀ l₃ : Lowering, l₃.Ready ⟨parameters.length + 1, locals.length⟩ inner frames ∅ ∅
        (if body.isEmpty then 1 else 0) ∅ → l₂.Adds l₃ [] → (rest ()).Runs l₃ fun code l' =>
          code.signature = blockSignature u.selector l₁.blocks ∧
            code.program.closures =
              ((Expr.bodyCensus u.selector u.inlining body).visit l₁.blocks).1 ∧
            l'.blocks = ((Expr.bodyCensus u.selector u.inlining body).visit l₁.blocks).2 := by
      intro l₃ h₃ a₃
      refine ((statements_safe u body h₃ hne).runs.and (statements_gains u body h₃ hne)).bind ?_
      rintro _ l₄ ⟨h₄, g₄⟩
      have g := a₃.then g₄
      refine (closeScope_yields h₄.complete signature true).bind ?_
      rintro code l₅ ⟨hsignature, hclosures, hb₅⟩ _ _ ⟨⟩
      refine ⟨hsignature, ?_, ?_⟩
      · rw [hclosures, g.closures, closures_of_blank hblank, List.nil_append, hblocks]
      · rw [← hblocks, ← g.blocks]
        exact hb₅
    split
    · rename_i hempty
      rw [if_pos hempty] at hrest
      refine ((emitOp_safe .pushNil h₂ rfl rfl trivial (by simp) nofun rfl).runs.and
        (emit_adds h₂.splits .pushNil [] rfl nofun)).bind ?_
      rintro _ l₃ ⟨h₃, a₃⟩
      exact hrest l₃ h₃ a₃
    · rename_i hempty
      rw [if_neg hempty] at hrest
      exact hrest l₂ h₂ (.of_eq rfl rfl)
  refine ((block_safe u scopes parameters locals body h hne).runs.and hbody).mono ?_
  rintro code l' ⟨⟨hd, hcode⟩, hsignature, hclosures, hblocks⟩
  refine ⟨hd, ?_, hblocks⟩
  rw [code.tree_eq, hsignature, hclosures, Code.argumentCount, hcode.arguments]
  rfl
termination_by (sizeOf body, 1)

theorem statements_gains (u : Subject) (es : List Expr) {l : Lowering} {o : Outline}
    {scopes : List Scope} {env : List Outline}
    (h : l.Ready o scopes env ∅ ∅ (if es.isEmpty then 1 else 0) ∅) (hne : env ≠ []) :
    (statements u scopes es).Runs l fun _ l' =>
      l.Gains l' (Expr.bodyCensus u.selector u.inlining es) := by
  match es with
  | [] =>
    rw [statements, Expr.bodyCensus]
    exact (emit_adds h.splits .returnLocal [] rfl nofun).mono fun _ _ a => a.none
  | e :: rest =>
    rw [statements, Expr.bodyCensus]
    by_cases hleave : e.isLeave
    · simp only [if_pos hleave]
      exact (expression_gains u scopes e h).bind fun _ _ g₁ => .pure g₁
    · simp only [if_neg hleave]
      refine (expression_gains u scopes e).bind h fun _ h₁ g₁ => ?_
      split
      · rename_i hmore
        refine ((emitOp_safe .drop h₁ rfl rfl trivial (by simp) nofun rfl).runs.and
          (emit_adds h₁.splits .drop [] rfl nofun)).bind fun _ _ ⟨h₂, a₂⟩ =>
            (statements_gains (o := o) u rest ?_ hne).mono fun _ _ g₃ => (g₁.then a₂).append g₃
        rwa [if_neg (by simpa using hmore)]
      · rename_i hlast
        refine (statements_gains (o := o) u rest ?_ hne).mono fun _ _ g₂ => g₁.append g₂
        rwa [if_pos (by simpa using hlast)]
termination_by (sizeOf es, 0)

end

theorem methodStatements_gains (u : Subject) (es : List Expr) (h : l.Ready o scopes [] ∅ ∅ 0 ∅) :
    (methodStatements u scopes es).Runs l fun _ l' =>
      l.Gains l' (Expr.bodyCensus u.selector u.inlining es) := by
  induction es generalizing l with
  | nil =>
    rw [methodStatements, Expr.bodyCensus]
    exact (emit_adds h.splits .returnSelf [] rfl (by simp)).mono fun _ _ a => a.none
  | cons e rest ih =>
    rw [methodStatements, Expr.bodyCensus]
    by_cases hleave : e.isLeave
    · simp only [if_pos hleave]
      exact (expression_gains u scopes e h).bind fun _ _ g₁ => .pure g₁
    · simp only [if_neg hleave]
      refine (expression_gains u scopes e).bind h fun l₁ h₁ g₁ => ?_
      refine ((emitOp_safe .drop h₁ rfl rfl trivial (by simp) (by simp) rfl).runs.and
        (emit_adds h₁.splits .drop [] rfl (by simp))).bind ?_
      rintro _ l₂ ⟨h₂, a₂⟩
      exact (ih h₂).mono fun _ _ g₃ => (g₁.then a₂).append g₃

theorem method_closures (u : Subject) (m : MethodTree) (l : Lowering) :
    (method u m).Runs l fun code _ =>
      code.program.closures = ((Expr.bodyCensus u.selector u.inlining m.body).visit
        l.blocks).1 := by
  unfold method
  extract_lets rest
  split
  · exact nofun
  · refine ((openScope_safe ⟨.nil, Nat.zero_le _⟩ "self" m.parameters m.locals).runs.and
      ((openScope_blank [] "self" m.parameters m.locals).runs.and
        (openScope_blocks [] "self" m.parameters m.locals))).bind ?_
    rintro scopes l₁ ⟨h₁, ⟨-, -, hblank⟩, hblocks⟩
    refine ((methodStatements_safe u m.body h₁).runs.and
      (methodStatements_gains u m.body h₁)).bind ?_
    rintro _ l₂ ⟨⟨_, h₂⟩, g₂⟩
    refine (closeScope_yields h₂.complete m.selector false).mono ?_
    rintro code _ ⟨-, hclosures, -⟩
    rw [hclosures, g₂.closures, closures_of_blank hblank, List.nil_append, hblocks]

end Lower

/-- The code of a method makes closures of the blocks that remain of the method. -/
theorem lower_closures {m : MethodTree} {holder : ClassRef} {fields : List String} {inlining : Bool}
    {supply : Supply} {code : Code}
    (h : (m.lower holder fields inlining supply).result = .ok code) :
    code.program.closures = m.remaining inlining := by
  rw [MethodTree.lower] at h
  dsimp only [EStateM.run] at h
  split at h
  · rename_i c l hr
    cases h
    exact Lower.method_closures _ m _ code l hr
  · cases h

-- The branch is spliced, but not the block that it answers; the block behind the return is not met.
example : MethodTree.remaining ⟨"pick:", ["flag"], [],
    [.send (.variable "flag") "ifTrue:" [.block [] [] [.leave (.block ["x"] [] [.variable "x"])]],
      .leave (.variable "flag"), .block [] [] []]⟩ true = [.node "pick:[2]" 1 []] := by
  cbv

end Parley
