import Parley.Proofs.Numbering

/-!
# The numbers that lowering gives

Lowering a method makes codes with fresh numbers, all different, for the class that it lowers
the method for. A step of lowering is described by the literals it takes in and those it gives
out beside the draft (`Lower.Makes`): lowering a block gives out its code, and splicing takes one
in.

* `Lower.expression_makes` and its companions: the codes stay apart while a tree is lowered;
* `lower_grows`: so they do when a method was lowered;
* `lower_supply_le`: no number is given twice, whether or not lowering succeeds.
-/

namespace Parley

variable {k : Nat} {α β : Type} {S T U : Set (Literal Code)}

/-- Whatever the draft, a step of lowering that is given literals `used` comes to `made`, by making
    codes with the numbers that it takes; if it fails, no number is given back. -/
def Lower.Makes (k : Nat) (used : Set (Literal Code)) (x : Lower α)
    (made : α → Set (Literal Code)) : Prop :=
  ∀ l, match x l with
    | .ok a l' => Grows k (parts l.draft.literals ∪ used) l.supply.code
        (parts l'.draft.literals ∪ made a) l'.supply.code
    | .error _ l' => l.supply.code ≤ l'.supply.code

/-- A name that a scope declares denotes a slot in a frame, whichever scope it is. -/
theorem Scope.visible?_slot {name : String} {level : Nat} {scopes : List Scope} {d : Denotation}
    (h : visible? name level scopes = some d) :
    ∃ slot depth, d = .temporary slot depth ∨ d = .argument slot depth := by
  induction scopes generalizing level with
  | nil => cases h
  | cons s outer ih =>
    rw [visible?, declared?] at h
    split at h
    · rename_i hs
      cases h
      split at hs
      · cases hs
        exact ⟨_, _, .inl rfl⟩
      · obtain ⟨slot, -, rfl⟩ := Option.map_eq_some_iff.1 hs
        exact ⟨_, _, .inr rfl⟩
    · exact ih h

namespace Lower

/-! ### Steps in sequence -/

theorem Makes.pure (a : α) (S : Set (Literal Code)) : Makes k S (Pure.pure a) fun _ => S :=
  fun _ => .refl _ _

theorem Makes.bind {x : Lower α} {f : α → Lower β} {mid : α → Set (Literal Code)}
    {made : β → Set (Literal Code)} (hx : Makes k S x mid)
    (hf : ∀ a, Makes k (mid a) (f a) made) : Makes k S (x >>= f) made := by
  intro l
  have hx := hx l
  change match EStateM.bind x f l with
    | .ok a l' => Grows k (parts l.draft.literals ∪ S) l.supply.code
        (parts l'.draft.literals ∪ made a) l'.supply.code
    | .error _ l' => l.supply.code ≤ l'.supply.code
  rw [EStateM.bind]
  cases hr : x l with
  -- A failure in either step gives no number back.
  | error e l' =>
    simp only [hr] at hx ⊢
    exact hx
  | ok a l' =>
    simp only [hr] at hx ⊢
    have hf := hf a l'
    cases hr' : f a l' with
    | error e l'' =>
      simp only [hr'] at hf ⊢
      exact hx.le.trans hf
    | ok b l'' =>
      simp only [hr'] at hf ⊢
      exact hx.trans hf

theorem Makes.throw (e : CompileError) (made : α → Set (Literal Code)) :
    Makes k S (throw e : Lower α) made :=
  fun _ => le_rfl

/-- Other literals may be around. -/
theorem Makes.union {x : Lower α} {made : α → Set (Literal Code)} (h : Makes k S x made)
    (U : Set (Literal Code)) : Makes k (U ∪ S) x fun a => U ∪ made a := by
  intro l
  have h := h l
  cases hr : x l with
  | error e l' =>
    simp only [hr] at h ⊢
    exact h
  | ok a l' =>
    simp only [hr] at h ⊢
    rw [Set.union_left_comm, Set.union_left_comm (parts l'.draft.literals)]
    exact h.union U

/-- A step that takes in nothing lets the literals around it be. -/
theorem Makes.frame {x : Lower α} (h : Makes k ∅ x fun _ => ∅) (S : Set (Literal Code)) :
    Makes k S x fun _ => S := by
  simpa using h.union S

/-- Steps in sequence, of which the first takes in nothing and gives out nothing. -/
theorem Makes.seq {x : Lower α} {f : α → Lower β} {made : β → Set (Literal Code)}
    (hx : Makes k ∅ x fun _ => ∅) (hf : ∀ a, Makes k S (f a) made) : Makes k S (x >>= f) made :=
  (hx.frame S).bind hf

/-! ### Single steps -/

/-- What looks at the whole state first. -/
theorem get_bind (f : Lowering → Lower α) (l : Lowering) : (get >>= f) l = f l l :=
  rfl

/-- A change of the draft that leaves the pool as it is. -/
theorem onDraft_makes {f : Draft → Except CompileError (α × Draft)}
    (hf : ∀ d a d', f d = .ok (a, d') → d'.literals = d.literals) :
    Makes k ∅ (onDraft f) fun _ => ∅ := by
  intro l
  cases hr : f l.draft with
  | error e =>
    have : onDraft f l = .error e l := by
      simp only [onDraft, get_bind, hr]
      rfl
    rw [this]
  | ok r =>
    obtain ⟨a, d⟩ := r
    have : onDraft f l = .ok a { l with draft := d } := by
      simp only [onDraft, get_bind, hr]
      rfl
    rw [this]
    dsimp only
    rw [hf _ _ _ hr]
    exact .refl _ _

theorem changeDraft_makes {f : Draft → Except CompileError Draft}
    (hf : ∀ d d', f d = .ok d' → d'.literals = d.literals) :
    Makes k ∅ (changeDraft f) fun _ => ∅ := by
  refine onDraft_makes fun d a d' h => ?_
  cases hd : f d with
  | error e => simp [hd, Except.map] at h
  | ok d₁ =>
    simp only [hd, Except.map, Except.ok.injEq, Prod.mk.injEq] at h
    rw [← h.2]
    exact hf d d₁ hd

theorem emit_makes (op : Opcode) (operands : List UInt8) :
    Makes k ∅ (emit op operands) fun _ => ∅ :=
  fun _ => .refl _ _

theorem position_makes : Makes k ∅ position fun _ => ∅ :=
  fun _ => .refl _ _

theorem emitJump_makes (op : Opcode) : Makes k ∅ (emitJump op) fun _ => ∅ :=
  onDraft_makes fun _ _ _ h => by cases h; rfl

theorem patchHere_makes (jump : Nat) : Makes k ∅ (patchHere jump) fun _ => ∅ :=
  changeDraft_makes fun _ _ h => Draft.patch_literals h

theorem emitBack_makes (head : Nat) : Makes k ∅ (emitBack head) fun _ => ∅ :=
  changeDraft_makes fun _ _ h => Draft.emitBack_literals h

theorem freshScope_makes : Makes k ∅ freshScope fun _ => ∅ :=
  fun _ => .refl _ _

theorem freshString_makes : Makes k ∅ freshString fun _ => ∅ :=
  fun _ => .refl _ _

/-- A literal that is written comes into the pool. -/
theorem emitLiteral_makes (op : Opcode) (m : Literal Code) :
    Makes k {n | m.Has n} (emitLiteral op m) fun _ => ∅ := by
  intro l
  cases hr : l.draft.emitLiteral op m with
  | error e =>
    have : emitLiteral op m l = .error e l := by
      simp only [emitLiteral, changeDraft, onDraft, get_bind, hr, Except.map]
      rfl
    rw [this]
  | ok d =>
    have : emitLiteral op m l = .ok () { l with draft := d } := by
      simp only [emitLiteral, changeDraft, onDraft, get_bind, hr, Except.map]
      rfl
    rw [this]
    exact (Grows.refl _ _).subset Set.Subset.rfl
      (Set.union_subset (Draft.emitLiteral_subset hr) (Set.empty_subset _))

/-- A literal that is no block may be written anywhere. -/
theorem emitPlain_makes (op : Opcode) {m : Literal Code} (hm : ∀ c, m ≠ .block c)
    (hf : m.Fits k) : Makes k ∅ (emitLiteral op m) fun _ => ∅ := by
  intro l
  have h := emitLiteral_makes (k := k) op m l
  cases hr : emitLiteral op m l with
  | error e l' =>
    simp only [hr] at h ⊢
    exact h
  | ok a l' =>
    simp only [hr] at h ⊢
    rw [Set.union_empty]
    exact (Grows.literal hm hf).trans h

theorem constant_makes (c : Constant) : Makes k ∅ (constant c) fun _ => ∅ := by
  cases c with
  | nil => exact emit_makes _ _
  | bool b => exact emitPlain_makes _ (by simp) trivial
  | int i =>
    rw [constant]
    split
    · exact emit_makes _ _
    · split
      · exact emit_makes _ _
      · exact emitPlain_makes _ (by simp) trivial
  | double d => exact emitPlain_makes _ (by simp) trivial
  | string s => exact freshString_makes.bind fun _ => emitPlain_makes _ (by simp) trivial
  | symbol s => exact emitPlain_makes _ (by simp) trivial

/-- What a name denotes is a constant only if it is a pseudo variable. -/
theorem resolve_constant {scopes : List Scope} {fields : List String} {name : String} {v : Value}
    (h : Scope.resolve scopes fields name = .constant v) : v.Within k := by
  unfold Scope.resolve at h
  dsimp only at h
  split at h
  · rename_i hp
    subst h
    unfold Scope.pseudo? at hp
    split at hp <;> cases hp <;> trivial
  · split at h
    · rename_i hv
      subst h
      obtain ⟨_, _, hd | hd⟩ := Scope.visible?_slot hv <;> cases hd
    · split at h <;> cases h

theorem read_makes (u : Subject) (scopes : List Scope) (name : String) :
    Makes k ∅ (read u scopes name) fun _ => ∅ := by
  rw [read]
  split
  · split
    · exact emit_makes _ _
    · exact emit_makes _ _
  · exact emit_makes _ _
  · exact emit_makes _ _
  · exact emit_makes _ _
  · exact emit_makes _ _
  · rename_i h
    exact emitPlain_makes _ (by simp) (resolve_constant h)
  · exact emitPlain_makes _ (by simp) trivial

theorem write_makes (u : Subject) (scopes : List Scope) (name : String) :
    Makes k ∅ (write u scopes name) fun _ => ∅ := by
  rw [write]
  split
  · exact emit_makes _ _
  · exact emit_makes _ _
  · exact emit_makes _ _
  · exact .throw _ _
  · exact .throw _ _
  · exact .throw _ _

theorem checkArity_makes (selector : Selector) (given : Nat) :
    Makes k ∅ (checkArity selector given) fun _ => ∅ := by
  rw [checkArity]
  split
  · exact .pure _ _
  · exact .throw _ _

/-! ### Scopes -/

theorem forM_makes {f : α → Lower PUnit} (hf : ∀ a, Makes k ∅ (f a) fun _ => ∅) (as : List α) :
    Makes k ∅ (as.forM f) fun _ => ∅ := by
  induction as with
  | nil => exact .pure _ _
  | cons a rest ih => exact (hf a).bind fun _ => ih

theorem openScope_makes (outer : List Scope) (first : String) (parameters locals : List String) :
    Makes k ∅ (openScope outer first parameters locals) fun _ => ∅ := by
  have hempty : ∀ scope depth, Makes k ∅
      (modify fun l => { l with draft := .empty scope depth } : Lower PUnit) fun _ => ∅ := by
    intro scope depth l
    exact (Grows.refl _ _).subset (U := parts #[] ∪ ∅) Set.Subset.rfl (by simp [parts_empty])
  unfold openScope
  extract_lets rest
  have hrest : ∀ r, Makes k ∅ (rest r) fun _ => ∅ := fun _ =>
    freshScope_makes.bind fun origin => (hempty _ _).bind fun _ => .bind
      (forM_makes (fun _ => changeDraft_makes fun _ _ h => Draft.addArgument_literals h) _)
      fun _ => .bind
        (forM_makes (fun _ => changeDraft_makes fun _ _ h => Draft.addLocal_literals h) _)
        fun _ => .pure _ _
  split
  · exact (Makes.throw _ _).bind hrest
  · exact hrest ()

/-- The code of a scope is made with the next number, for the class of the method. -/
theorem closeScope_makes {u : Subject} (hu : u.holder < k) (signature : Selector) (isBlock : Bool) :
    Makes k ∅ (closeScope u signature isBlock) Code.parts := by
  intro l
  cases hr : l.draft.finish with
  | error e =>
    have : closeScope u signature isBlock l = .error e l := by
      simp only [closeScope, get_bind, hr]
      rfl
    rw [this]
  | ok program =>
    let code : Code := .mk l.supply.code signature (some u.holder) isBlock program
    have : closeScope u signature isBlock l =
        .ok code { l with supply := { l.supply with code := l.supply.code + 1 } } := by
      simp only [closeScope, get_bind, hr]
      rfl
    rw [this]
    -- The pool of the draft is the pool of the program that it becomes.
    have hg : Grows k (parts l.draft.literals) l.supply.code
        (insert (.block code) (parts l.draft.literals)) (l.supply.code + 1) := by
      refine .code code rfl fun _ h hh => ?_
      cases hh
      exact hu
    refine hg.subset Set.subset_union_left (Set.union_subset (Set.subset_insert _ _) ?_)
    rw [Code.parts_eq, show code.program.literals = l.draft.literals from Program.make_literals hr]

/-- A block that is spliced goes into the draft. -/
theorem splice_makes (block : Code) : Makes k block.parts (splice block) fun _ => ∅ := by
  intro l
  cases hr : l.draft.splice block l.supply.code with
  | error e =>
    have : splice block l = .error e l := by
      simp only [splice, get_bind, hr]
      rfl
    rw [this]
  | ok r =>
    obtain ⟨d, n⟩ := r
    have : splice block l = .ok () { l with
        draft := d
        supply := { l.supply with code := n }
        events := spliced block l.draft d :: l.events } := by
      simp only [splice, get_bind, hr]
      rfl
    rw [this]
    dsimp only
    rw [Set.union_empty]
    exact Draft.splice_grows k hr

/-- What looks at the draft may take in the literals that are there. -/
theorem get_makes {f : Lowering → Lower α} {made : α → Set (Literal Code)}
    (hf : ∀ l, Makes k (parts l.draft.literals) (f l) made) : Makes k ∅ (get >>= f) made := by
  intro l
  have h := hf l l
  rw [Set.union_self] at h
  rw [Set.union_empty]
  exact h

/-- A draft that was put aside, and whose literals were around meanwhile, comes back. -/
theorem restore_makes (l : Lowering) (code : Code) :
    Makes k (parts l.draft.literals ∪ code.parts) (do
      modify fun m => { m with draft := l.draft }
      return code) Code.parts :=
  fun _ => (Grows.refl _ _).subset Set.Subset.rfl Set.subset_union_right

/-! ### Trees -/

mutual

theorem expression_makes (k : Nat) {u : Subject} (hu : u.holder < k) (scopes : List Scope)
    (e : Expr) : Makes k ∅ (expression u scopes e) fun _ => ∅ := by
  match e with
  | .constant c =>
    rw [expression]
    exact constant_makes c
  | .variable name =>
    rw [expression]
    exact read_makes u scopes name
  | .assign name value =>
    rw [expression]
    exact (expression_makes k hu scopes value).bind fun _ => (emit_makes _ _).bind fun _ =>
      write_makes u scopes name
  | .send receiver selector arguments =>
    rw [expression]
    split
    · rename_i c hc
      -- An inlined send is no larger than its tree.
      exact control_makes k hu scopes c
    · exact (checkArity_makes _ _).bind fun _ => (expression_makes k hu scopes receiver).bind
        fun _ => (expressions_makes k hu scopes arguments).bind fun _ =>
          emitPlain_makes _ (by simp) trivial
  | .superSend selector arguments =>
    rw [expression]
    exact (checkArity_makes _ _).bind fun _ => (read_makes u scopes "self").bind fun _ =>
      (expressions_makes k hu scopes arguments).bind fun _ => emitPlain_makes _ (by simp) trivial
  | .block parameters locals body =>
    rw [expression]
    exact (block_makes k hu scopes parameters locals body).bind fun code =>
      emitLiteral_makes _ (.block code)
  | .leave value =>
    rw [expression]
    refine (expression_makes k hu scopes value).bind fun _ => ?_
    dsimp only
    split
    · exact emit_makes _ _
    · exact emit_makes _ _
termination_by (sizeOf e, 0)
decreasing_by
  all_goals first
    | (have h := inlined?_size ‹_›; exact Prod.Lex.left _ _ h)
    | decreasing_tactic

theorem expressions_makes (k : Nat) {u : Subject} (hu : u.holder < k) (scopes : List Scope)
    (es : List Expr) : Makes k ∅ (expressions u scopes es) fun _ => ∅ := by
  match es with
  | [] =>
    rw [expressions]
    exact .pure _ _
  | e :: rest =>
    rw [expressions]
    exact (expression_makes k hu scopes e).bind fun _ => expressions_makes k hu scopes rest
termination_by (sizeOf es, 0)

theorem control_makes (k : Nat) {u : Subject} (hu : u.holder < k) (scopes : List Scope)
    (c : Control) : Makes k ∅ (control u scopes c) fun _ => ∅ := by
  match c with
  | .branch condition on locals body =>
    rw [control]
    exact (expression_makes k hu scopes condition).bind fun _ => (emitJump_makes _).bind
      fun skip => (block_makes k hu scopes [] locals body).bind fun code =>
        (splice_makes code).bind fun _ => patchHere_makes skip
  | .choice condition on locals₁ body₁ locals₂ body₂ =>
    rw [control]
    exact (expression_makes k hu scopes condition).bind fun _ => (emitJump_makes _).bind
      fun other => (block_makes k hu scopes [] locals₁ body₁).bind fun code₁ =>
        (splice_makes code₁).bind fun _ => (emitJump_makes _).bind fun done =>
          (patchHere_makes other).bind fun _ =>
            (block_makes k hu scopes [] locals₂ body₂).bind fun code₂ =>
              (splice_makes code₂).bind fun _ => patchHere_makes done
  | .loop on locals₁ condition locals₂ body =>
    rw [control]
    exact position_makes.bind fun head => (block_makes k hu scopes [] locals₁ condition).bind
      fun code₁ => (splice_makes code₁).bind fun _ => (emitJump_makes _).bind fun done =>
        (block_makes k hu scopes [] locals₂ body).bind fun code₂ =>
          (splice_makes code₂).bind fun _ => (emit_makes _ _).bind fun _ =>
            (emitBack_makes head).bind fun _ => (patchHere_makes done).bind fun _ =>
              emit_makes _ _
  | .count start limit parameter locals body =>
    rw [control]
    refine (expression_makes k hu scopes start).bind fun _ =>
      (expression_makes k hu scopes limit).bind fun _ => (emit_makes _ _).bind fun _ =>
        (block_makes k hu scopes [parameter] locals body).bind fun code => ?_
    -- The code of the body is around until it is spliced, whatever comes in between.
    have hrest : ∀ slot, Makes k code.parts (do
        let head ← position
        let done ← emitJump (.jump .greater false)
        emit .dup []
        emit (.pop .temporary) [slot, 0]
        splice code
        emit .drop []
        emit (.step true) []
        emitBack head
        patchHere done) fun _ => ∅ := fun slot =>
      position_makes.seq fun head => (emitJump_makes _).seq fun done => (emit_makes _ _).seq
        fun _ => (emit_makes _ _).seq fun _ => (splice_makes code).bind fun _ =>
          (emit_makes _ _).bind fun _ => (emit_makes _ _).bind fun _ =>
            (emitBack_makes head).bind fun _ => patchHere_makes done
    split
    · exact (onDraft_makes fun _ _ _ h => Draft.mergeLocal_literals h).seq hrest
    · exact (Makes.throw _ _).seq hrest
termination_by (c.size + 1, 0)
decreasing_by
  all_goals
    apply Prod.Lex.left
    simp only [Control.size]
    omega

theorem block_makes (k : Nat) {u : Subject} (hu : u.holder < k) (scopes : List Scope)
    (parameters locals : List String) (body : List Expr) :
    Makes k ∅ (block u scopes parameters locals body) Code.parts := by
  rw [block]
  have hcount : Makes k ∅
      (modify fun l => { l with blocks := l.blocks + 1 } : Lower PUnit) fun _ => ∅ :=
    fun _ => .refl _ _
  -- The draft of the scope around is put aside, and its literals are kept meanwhile.
  refine hcount.bind fun _ => get_makes fun l => ?_
  extract_lets signature
  refine (openScope_makes scopes "$block" parameters locals).seq fun inner => ?_
  extract_lets rest
  -- The lowered body becomes a code of its own before the draft comes back.
  have hrest : Makes k (parts l.draft.literals) (rest ()) Code.parts := by
    refine (statements_makes k hu inner body).seq fun _ => .bind ?_ (restore_makes l)
    simpa using (closeScope_makes hu signature true).union (parts l.draft.literals)
  split
  · exact (emit_makes _ _).seq fun _ => hrest
  · exact hrest
termination_by (sizeOf body, 1)

theorem statements_makes (k : Nat) {u : Subject} (hu : u.holder < k) (scopes : List Scope)
    (es : List Expr) : Makes k ∅ (statements u scopes es) fun _ => ∅ := by
  match es with
  | [] =>
    rw [statements]
    exact emit_makes _ _
  | e :: rest =>
    rw [statements]
    refine (expression_makes k hu scopes e).bind fun _ => ?_
    split
    · exact .pure _ _
    · dsimp only
      split
      · exact (emit_makes _ _).bind fun _ => statements_makes k hu scopes rest
      · exact statements_makes k hu scopes rest
termination_by (sizeOf es, 0)

end

theorem methodStatements_makes {u : Subject} (hu : u.holder < k) (scopes : List Scope)
    (es : List Expr) : Makes k ∅ (methodStatements u scopes es) fun _ => ∅ := by
  induction es with
  | nil => exact emit_makes _ _
  | cons e rest ih =>
    rw [methodStatements]
    refine (expression_makes k hu scopes e).bind fun _ => ?_
    split
    · exact .pure _ _
    · exact (emit_makes _ _).bind fun _ => ih

theorem method_makes {u : Subject} (hu : u.holder < k) (m : MethodTree) :
    Makes k ∅ (method u m) Code.parts := by
  unfold method
  extract_lets rest
  have hrest : Makes k ∅ (rest ()) Code.parts :=
    (openScope_makes [] "self" m.parameters m.locals).bind fun scopes =>
      (methodStatements_makes hu scopes m.body).bind fun _ => closeScope_makes hu m.selector false
  split
  · exact (Makes.throw _ _).bind fun _ => hrest
  · exact hrest

end Lower

/-- A method that is lowered comes to codes with numbers of their own. -/
theorem lower_grows {holder : ClassRef} (hk : holder < k) (m : MethodTree) (fields : List String)
    (inlining : Bool) (supply : Supply) {code : Code}
    (h : (m.lower holder fields inlining supply).result = .ok code) :
    Grows k ∅ supply.code code.parts (m.lower holder fields inlining supply).supply.code := by
  let u : Subject := ⟨holder, fields, m.selector, inlining⟩
  have hm := Lower.method_makes (k := k) (u := u) hk m ⟨default, 0, supply, []⟩
  unfold MethodTree.lower at h ⊢
  dsimp only [EStateM.run] at h ⊢
  split at h
  · rename_i c l hr
    cases h
    rw [hr] at hm
    -- Lowering starts from a draft without literals.
    have hempty : parts (default : Draft).literals = ∅ := parts_empty
    simp only [hempty, Set.union_empty] at hm
    exact hm.subset Set.Subset.rfl Set.subset_union_right
  · cases h

/-- Numbers once given are never given again. -/
theorem lower_supply_le (m : MethodTree) (holder : ClassRef) (fields : List String)
    (inlining : Bool) (supply : Supply) :
    supply.code ≤ (m.lower holder fields inlining supply).supply.code := by
  let u : Subject := ⟨holder, fields, m.selector, inlining⟩
  have hm := Lower.method_makes (k := holder + 1) (u := u) holder.lt_succ_self m
    ⟨default, 0, supply, []⟩
  rw [MethodTree.lower]
  dsimp only [EStateM.run]
  cases hr : Lower.method u m ⟨default, 0, supply, []⟩ with
  | ok c l =>
    rw [hr] at hm
    exact hm.le
  | error e l =>
    rw [hr] at hm
    exact hm

end Parley
