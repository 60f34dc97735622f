import Parley.Proofs.Compiling

/-!
# Codes that come of lowering

Trees are lowered by structural recursion, and each kind of tree keeps the draft in good order: an
expression leaves one value, also where it is never reached, and a control-flow message leaves the
value that the message would. So a block that is lowered fits in where it is written, and the codes
of a method fit into each other.

* `Lower.expression_safe`, `Lower.control_safe`, `Lower.block_safe`: the kinds of trees;
* `Code.Lexical.within`: codes at any depth fit into the codes around them;
* `Code.Lexical.spliceable`: what splicing asks of a block holds of every block that fits in;
* `lower_without_defects`: no method is refused for a defect of the compiler.
-/

namespace Parley

namespace Lower

variable {env frames : List Outline} {O K : Set (Nat × Nat)} {n : Nat} {scopes : List Scope}
  {o : Outline} {l : Lowering}

/-- A loop over the integers between two bounds, which are on the stack with the index: its body
    finds the index in a local. -/
theorem countLoop_safe {code : Code} {slot : UInt8}
    (h : l.Ready o scopes env O K (n + 3) code.parts)
    (hc : code.Lexical (l.draft.outline :: env)) (hslot : slot.toNat < l.draft.outline.locals) :
    Safe (do
      let head ← position
      let done ← emitJump (.jump .greater false)
      emit .dup []
      emit (.pop .temporary) [slot, 0]
      splice code
      emit .drop []
      emit (.step true) []
      emitBack head
      patchHere done) l fun _ l' => l'.Ready o scopes env O K (n + 1) ∅ := by
  refine (position_safe h.rebase).bind fun head _ h₁ =>
    (emitJump_safe h₁ (by simp) (by simp [Jump.effect]) fun _ => rfl).bind
      fun done _ ⟨hdone, h₂⟩ =>
    (emitOp_safe .dup h₂ rfl rfl trivial (by simp [Jump.effect]) (by simp) rfl).bind
      fun _ _ h₃ => (popLocal_safe h₃ hslot).bind fun _ l₄ h₄ => ?_
  have hc₄ : code.Lexical (l₄.draft.outline :: env) :=
    hc.mono (.cons h₄.frame (Outlines.Le.refl env))
  refine (splice_safe h₄ hc₄).bind fun _ _ h₅ =>
    (emitOp_safe .drop h₅ rfl rfl trivial (by simp) (by simp) rfl).bind fun _ _ h₆ =>
    (emitOp_safe (.step true) h₆ rfl rfl trivial (by simp [Jump.effect]) (by simp)
      rfl).bind fun _ _ h₇ =>
    (emitBack_safe h₇ (.inl rfl) (n + 1)).bind fun _ _ h₈ =>
    (patchHere_safe h₈ hdone).mono fun _ _ h₉ =>
      (h₉.forget (Set.subset_insert _ _)).since h.frame

mutual

theorem expression_safe (u : Subject) (e : Expr) {l : Lowering} {o : Outline} {scopes : List Scope}
    {env : List Outline} {O K : Set (Nat × Nat)} {n : Nat} (h : l.Ready o scopes env O K n ∅) :
    (expression u scopes e).Safe l fun _ l' => l'.Ready o scopes env O K (n + 1) ∅ := by
  match e with
  | .constant c =>
    rw [expression]
    exact constant_safe h c
  | .variable name =>
    rw [expression]
    exact read_safe h u name
  | .assign name value =>
    rw [expression]
    exact (expression_safe u value h).bind fun _ _ h₁ =>
      (emitOp_safe .dup h₁ rfl rfl trivial (by omega) nofun rfl).bind fun _ _ h₂ =>
        write_safe h₂ u name
  | .send receiver selector arguments =>
    rw [expression]
    split
    · rename_i c hc
      exact control_safe u c h
    · refine (checkArity_safe l selector arguments.length).bind ?_
      rintro _ _ ⟨rfl, ha⟩
      exact (expression_safe u receiver h).bind fun _ _ h₁ =>
        (expressions_safe u arguments h₁).bind fun _ _ h₂ =>
          emitSend_safe (by rwa [ha, Nat.add_comm arguments.length, ← Nat.add_assoc])
  | .superSend selector arguments =>
    rw [expression]
    refine (checkArity_safe l selector arguments.length).bind ?_
    rintro _ _ ⟨rfl, ha⟩
    exact (read_safe h u "self").bind fun _ _ h₁ =>
      (expressions_safe u arguments h₁).bind fun _ _ h₂ =>
        emitSend_safe (by rwa [ha, Nat.add_comm arguments.length, ← Nat.add_assoc])
  | .block parameters locals body =>
    rw [expression]
    exact ((block_safe u scopes parameters locals body h.declare (by simp)).ready h).bind
      fun _ _ ⟨h₁, hc⟩ => emitBlock_safe h₁ hc.lexical
  | .leave value =>
    rw [expression]
    refine (expression_safe u value h).bind fun _ l₁ h₁ => ?_
    have hdepth := toNat_depth h₁.declare (by simp)
    -- Nothing behind a return is reached, so any depth will do there.
    dsimp only
    split
    · rename_i hzero
      rw [hzero] at hdepth
      exact emit_safe h₁ rfl rfl trivial (by omega) nofun fun _ => by simpa using hdepth
    · rename_i hzero
      exact emit_safe h₁ rfl rfl ⟨hzero, hdepth⟩ (by omega) nofun nofun
termination_by (sizeOf e, 0)
decreasing_by
  all_goals first
    | (have h := inlined?_size ‹_›; exact Prod.Lex.left _ _ h)
    | decreasing_tactic

theorem expressions_safe (u : Subject) (es : List Expr) {l : Lowering} {o : Outline}
    {scopes : List Scope} {env : List Outline} {O K : Set (Nat × Nat)} {n : Nat}
    (h : l.Ready o scopes env O K n ∅) : (expressions u scopes es).Safe l fun _ l' =>
      l'.Ready o scopes env O K (n + es.length) ∅ := by
  match es with
  | [] =>
    rw [expressions]
    exact .pure h
  | e :: rest =>
    rw [expressions]
    refine (expression_safe u e h).bind fun _ _ h₁ => ?_
    rw [List.length_cons, Nat.add_comm rest.length, ← Nat.add_assoc]
    exact expressions_safe u rest h₁
termination_by (sizeOf es, 0)

theorem control_safe (u : Subject) (c : Control) {l : Lowering} {o : Outline} {scopes : List Scope}
    {env : List Outline} {O K : Set (Nat × Nat)} {n : Nat} (h : l.Ready o scopes env O K n ∅) :
    (control u scopes c).Safe l fun _ l' => l'.Ready o scopes env O K (n + 1) ∅ := by
  match c with
  | .branch condition on locals body =>
    rw [control]
    refine (expression_safe u condition h).bind fun _ _ h₁ =>
      (emitJump_safe h₁ (by simp) (by simp [Jump.effect]) fun _ => rfl).bind
        fun skip _ ⟨hskip, h₂⟩ =>
      ((block_safe u scopes [] locals body h₂.declare (by simp)).ready h₂).bind
        fun code _ ⟨h₃, hc⟩ => (splice_safe h₃ hc.lexical).bind fun _ _ h₄ =>
          patchHere_safe h₄ hskip
  | .choice condition on locals₁ body₁ locals₂ body₂ =>
    rw [control]
    refine (expression_safe u condition h).bind fun _ _ h₁ =>
      (emitJump_safe h₁ (by simp) (by simp [Jump.effect]) fun _ => rfl).bind
        fun other _ ⟨hother, h₂⟩ =>
      ((block_safe u scopes [] locals₁ body₁ h₂.declare (by simp)).ready h₂).bind
        fun code₁ _ ⟨h₃, hc₁⟩ => (splice_safe h₃ hc₁.lexical).bind fun _ _ h₄ => ?_
    -- Behind the jump to the end the stack is as it was before the first branch.
    refine (emitAlways_safe h₄ n).bind fun done l₅ ⟨hdone, h₅⟩ => ?_
    have h₅ : l₅.Ready o scopes env (insert (other, n) (insert (done, n + 1) O)) K n ∅ :=
      Set.insert_comm _ _ _ ▸ h₅
    refine (patchHere_safe h₅ ?_).bind fun _ _ h₆ =>
      ((block_safe u scopes [] locals₂ body₂ h₆.declare (by simp)).ready h₆).bind
        fun code₂ _ ⟨h₇, hc₂⟩ => (splice_safe h₇ hc₂.lexical).bind fun _ _ h₈ =>
          patchHere_safe h₈ fun x hx => hdone x (.inr hx)
    rintro x (rfl | hx)
    · exact (hdone _ (.inl rfl)).symm
    · exact hother x hx
  | .loop on locals₁ condition locals₂ body =>
    rw [control]
    refine (position_safe h).bind fun head _ h₁ =>
      ((block_safe u scopes [] locals₁ condition h₁.declare (by simp)).ready h₁).bind
        fun code₁ _ ⟨h₂, hc₁⟩ => (splice_safe h₂ hc₁.lexical).bind fun _ _ h₃ =>
      (emitJump_safe h₃ (by simp) (by simp [Jump.effect]) fun _ => rfl).bind
        fun done _ ⟨hdone, h₄⟩ =>
      ((block_safe u scopes [] locals₂ body h₄.declare (by simp)).ready h₄).bind
        fun code₂ _ ⟨h₅, hc₂⟩ => (splice_safe h₅ hc₂.lexical).bind fun _ _ h₆ =>
      (emitOp_safe .drop h₆ rfl rfl trivial (by omega) nofun rfl).bind fun _ _ h₇ =>
      (emitBack_safe h₇ (.inl rfl) n).bind fun _ _ h₈ =>
        (patchHere_safe h₈ hdone).bind fun _ _ h₉ =>
          emitPush_safe (h₉.forget (Set.subset_insert _ _)) rfl rfl trivial
  | .count start limit parameter locals body =>
    rw [control]
    refine (expression_safe u start h).bind fun _ _ h₁ => (expression_safe u limit h₁).bind
      fun _ _ h₂ => (emitOp_safe .dupSecond h₂ rfl rfl trivial (by omega) nofun rfl).bind
        fun _ _ h₃ =>
      ((block_safe u scopes [parameter] locals body h₃.declare (by simp)).ready h₃).bind
        fun code _ ⟨h₄, hc⟩ => ?_
    -- The loop body has an index argument beside argument zero.
    obtain ⟨v, hv⟩ : ∃ v, code.program.arguments[1]? = some v :=
      ⟨_, Array.getElem?_eq_getElem (by rw [hc.arguments]; simp)⟩
    simp only [hv]
    exact (mergeLocal_safe h₄ v).bind fun slot _ ⟨hslot, hle, h₅⟩ =>
      countLoop_safe h₅ (hc.lexical.mono (.cons hle (Outlines.Le.refl env))) hslot
termination_by (c.size + 1, 0)
decreasing_by
  all_goals
    apply Prod.Lex.left
    simp only [Control.size]
    omega

theorem block_safe (u : Subject) (scopes : List Scope) (parameters locals : List String)
    (body : List Expr) {l : Lowering} {frames : List Outline} (h : Scopes.Declare scopes frames)
    (hne : frames ≠ []) : (block u scopes parameters locals body).Safe l fun code l' =>
      l'.draft = l.draft ∧ code.OfBlock frames parameters body := by
  rw [block]
  have hkind : true = !frames.isEmpty := by simp [hne]
  have hcount : (modify fun l => { l with blocks := l.blocks + 1 } : Lower PUnit).Safe l
      fun _ l' => l'.draft = l.draft := rfl
  refine hcount.bind fun _ l₁ h₁ => ?_
  rw [← h₁]
  -- The draft of the scope around is put aside here.
  refine get_bind_safe ?_
  extract_lets signature
  refine (openScope_safe h "$block" parameters locals).bind fun inner l₂ h₂ => ?_
  extract_lets rest
  have hrest : ∀ l₃ : Lowering, l₃.Ready ⟨parameters.length + 1, locals.length⟩ inner frames ∅ ∅
      (if body.isEmpty then 1 else 0) ∅ → (rest ()).Safe l₃ fun code l' =>
        l'.draft = l₁.draft ∧ code.OfBlock frames parameters body := by
    intro l₃ h₃
    refine (statements_safe u body h₃ hne).bind fun _ l₄ h₄ =>
      (closeScope_safe h₄.complete signature h₃.declare.fit hkind).bind
        fun code l₅ ⟨hcode, houtline, hends⟩ => ⟨rfl, hcode, ?_, hends⟩
    have := h₄.frame.arguments
    rw [← houtline] at this
    exact this
  split
  · rename_i hempty
    rw [if_pos hempty] at hrest
    exact (emitOp_safe .pushNil h₂ rfl rfl trivial (by simp) nofun rfl).bind fun _ l₃ h₃ =>
      hrest l₃ h₃
  · rename_i hempty
    rw [if_neg hempty] at hrest
    exact hrest l₂ h₂
termination_by (sizeOf body, 1)

theorem statements_safe (u : Subject) (es : List Expr) {l : Lowering} {o : Outline}
    {scopes : List Scope} {env : List Outline}
    (h : l.Ready o scopes env ∅ ∅ (if es.isEmpty then 1 else 0) ∅) (hne : env ≠ []) :
    (statements u scopes es).Safe l fun _ l' =>
      l'.Done o env (if es.any Expr.isLeave then .returnNonLocal else .returnLocal) := by
  match es with
  | [] =>
    rw [statements]
    exact leave_safe h rfl rfl trivial le_rfl rfl fun _ => .inl ⟨rfl, rfl⟩
  | e :: rest =>
    rw [statements]
    by_cases hleave : e.isLeave
    · cases e with
      | leave value =>
        rw [expression, bind_assoc]
        refine (expression_safe u value h).bind fun _ _ h₁ =>
          (leaveMethod_safe h₁).bind fun _ _ h₂ => .pure ?_
        rwa [returning, if_neg (by simpa using hne)] at h₂
      | _ => cases hleave
    · refine (expression_safe u e h).bind fun _ l₁ h₁ => ?_
      rw [if_neg hleave, List.any_cons, Bool.eq_false_iff.2 hleave, Bool.false_or]
      dsimp only
      split
      · rename_i hmore
        refine (emitOp_safe .drop h₁ rfl rfl trivial (by simp) nofun rfl).bind fun _ _ h₂ =>
          statements_safe u rest ?_ hne
        rwa [if_neg (by simpa using hmore)]
      · rename_i hlast
        refine statements_safe u rest ?_ hne
        rwa [if_pos (by simpa using hlast)]
termination_by (sizeOf es, 0)

end

theorem methodStatements_safe (u : Subject) (es : List Expr) {l : Lowering}
    (h : l.Ready o scopes [] ∅ ∅ 0 ∅) :
    (methodStatements u scopes es).Safe l fun _ l' => ∃ op, l'.Done o [] op := by
  induction es generalizing l with
  | nil =>
    rw [methodStatements]
    have hleave : (emit .returnSelf []).Safe l fun _ l' => l'.Done o [] .returnSelf :=
      leave_safe h rfl rfl rfl le_rfl rfl (by simp)
    exact hleave.mono fun _ _ h₁ => ⟨_, h₁⟩
  | cons e rest ih =>
    rw [methodStatements]
    by_cases hleave : e.isLeave
    · cases e with
      | leave value =>
        rw [expression, bind_assoc]
        refine (expression_safe u value h).bind fun _ _ h₁ => ?_
        exact (leaveMethod_safe h₁).bind fun _ _ h₂ => .pure ⟨_, h₂⟩
      | _ => cases hleave
    · refine (expression_safe u e h).bind fun _ l₁ h₁ => ?_
      rw [if_neg hleave]
      exact (emitOp_safe .drop h₁ rfl rfl trivial (by simp) (by simp) rfl).bind fun _ _ h₂ => ih h₂

theorem method_safe (u : Subject) (m : MethodTree) (l : Lowering) :
    (method u m).Safe l fun code _ => code.Lexical [] ∧
      code.program.arguments.size = m.parameters.length + 1 ∧
        m.selector.arity = m.parameters.length := by
  unfold method
  extract_lets rest
  split
  · exact throw_bind_safe rfl _ _
  · rename_i harity
    refine (openScope_safe ⟨.nil, Nat.zero_le _⟩ "self" m.parameters m.locals).bind
      fun scopes _ h₁ => (methodStatements_safe u m.body h₁).bind fun _ l₂ ⟨_, h₂⟩ =>
        (closeScope_safe h₂.complete m.selector (by decide) rfl).mono fun code _ ⟨hcode, houtline,
          _⟩ =>
          ⟨hcode, ?_, by simpa using harity⟩
    have := h₂.frame.arguments
    rw [← houtline] at this
    exact this

end Lower

/-- What lowering a method comes to is lexical as it stands, unless the tree asks for something
    that there is not. -/
theorem lower_safe (m : MethodTree) (holder : ClassRef) (fields : List String) (inlining : Bool)
    (supply : Supply) : Yields (m.lower holder fields inlining supply).result fun code =>
      code.Lexical [] ∧ code.program.arguments.size = m.parameters.length + 1 ∧
        m.selector.arity = m.parameters.length := by
  have h := Lower.method_safe ⟨holder, fields, m.selector, inlining⟩ m ⟨default, 0, supply, []⟩
  rw [MethodTree.lower]
  dsimp only [EStateM.run]
  rw [Lower.Safe] at h
  split
  · rename_i code l hr
    rw [hr] at h
    exact .inl ⟨code, rfl, h⟩
  · rename_i e l hr
    rw [hr] at h
    exact .inr ⟨e, rfl, h⟩

/-! ### Families of codes -/

theorem Code.mem_blocks {b c : Code} : b ∈ c.blocks ↔ .block b ∈ c.program.literals := by
  rw [blocks, List.mem_filterMap]
  constructor
  · rintro ⟨l, hl, hb⟩
    cases l <;> simp at hb
    subst hb
    exact Array.mem_toList_iff.1 hl
  · exact fun h => ⟨_, Array.mem_toList_iff.2 h, rfl⟩

/-- A code is among the blocks of another one, so many levels inside. -/
inductive Code.Within : Code → Nat → Code → Prop
  | self (c : Code) : Within c 0 c
  | inside {b c d : Code} {k : Nat} : b ∈ c.blocks → Within b k d → Within c (k + 1) d

theorem Code.exists_within {b c : Code} (h : b ∈ c.family) : ∃ k, c.Within k b := by
  induction c using Code.family.induct with
  | case1 c ih =>
    rw [family, List.mem_cons, List.mem_flatMap] at h
    rcases h with rfl | ⟨⟨d, hd⟩, -, h⟩
    · exact ⟨0, .self _⟩
    · obtain ⟨k, hk⟩ := ih ⟨d, hd⟩ h
      exact ⟨k + 1, .inside hd hk⟩

/-- A block of a code fits in where it is written. -/
theorem Code.Lexical.block {b c : Code} (h : c.Lexical env) (hb : b ∈ c.blocks) :
    b.Lexical (c.program.outline :: env) := by
  obtain ⟨D, hD⟩ := h.labelled
  obtain ⟨i, hi⟩ := Array.getElem?_of_mem (Code.mem_blocks.1 hb)
  obtain ⟨ip, hip, w, first, second, hr, rfl⟩ := hD.pushed i b hi
  exact (h.encloses ip hip w first second b hr hi).2

theorem Code.Lexical.within {k : Nat} {c d : Code} (h : c.Lexical env) (hd : c.Within k d) :
    ∃ inner, inner.length = k ∧ d.Lexical (inner ++ env) := by
  induction hd generalizing env with
  | self => exact ⟨[], rfl, h⟩
  | @inside b c d k hb _ ih =>
    obtain ⟨inner, hlength, hd⟩ := ih (h.block hb)
    refine ⟨inner ++ [c.program.outline], by simp [hlength], ?_⟩
    rwa [List.append_assoc, List.singleton_append]

/-- The check passes for a code and for the blocks in it, at any depth. -/
def Code.Checked (c : Code) : Prop :=
  ∀ d ∈ c.family, ∃ bound, d.program.tape.stackBound d.program.literals d.program.arguments.size
    d.program.locals.size = .ok bound

theorem Code.Lexical.checked {c : Code} (h : c.Lexical env) : c.Checked := by
  intro d hd
  obtain ⟨k, hk⟩ := Code.exists_within hd
  obtain ⟨inner, -, hd⟩ := h.within hk
  obtain ⟨⟨depths, bound⟩, hr⟩ := hd.check
  exact ⟨bound, by rw [Tape.stackBound, hr]; rfl⟩

/-! ### Blocks that can be spliced -/

/-- What splicing asks of a block, the last instruction of which is `last`. -/
structure Code.Spliceable (c : Code) (last : Opcode) : Prop where
  endsWith : c.program.EndsWith last
  /-- It returns at its end only. -/
  returns : ∀ ip ∈ c.program.tape.starts, c.program.tape.opcode? ip = some .returnLocal →
    ip + 1 = c.program.tape.size
  /-- It does not take itself for the receiver. -/
  receiver : ∀ ip ∈ c.program.tape.starts,
    c.program.tape.opcode? ip ≠ some .pushSelf ∧ c.program.tape.opcode? ip ≠ some .returnSelf
  /-- It has no fields of its own. -/
  fields : ∀ ip ∈ c.program.tape.starts, ∀ op ∈ [Opcode.push .field, .pop .field],
    c.program.tape.opcode? ip = some op → c.program.tape.byteAt (ip + 2) ≠ 0
  /-- It does not refer to itself. -/
  itself : ∀ ip ∈ c.program.tape.starts, ∀ op ∈ [Opcode.push .argument, .pop .argument],
    c.program.tape.opcode? ip = some op → c.program.tape.byteAt (ip + 1) = 0 →
      c.program.tape.byteAt (ip + 2) ≠ 0
  loops : c.program.loops.map (fun mark => (mark.jump, mark.head)) = c.program.tape.backs
  /-- No return out of a method, from the block or one in it, takes the block for the method. -/
  targets : ∀ k d, c.Within k d → ∀ ip ∈ d.program.tape.starts,
    d.program.tape.opcode? ip = some .returnNonLocal → (d.program.tape.byteAt (ip + 1)).toNat ≠ k

/-- A block that fits in can be spliced. -/
theorem Code.Lexical.spliceable {c : Code} (h : c.Lexical env) (hne : env ≠ []) {last : Opcode}
    (hlast : c.program.EndsWith last) : c.Spliceable last := by
  obtain ⟨D, hD⟩ := h.labelled
  have hpos := List.length_pos_iff.2 hne
  have hlength : (c.program.outline :: env).length ≠ 1 := by simp [hne]
  have hsuits : ∀ {ip op}, ip ∈ c.program.tape.starts → c.program.tape.opcode? ip = some op →
      ∃ first second, c.program.tape.Reads ip op first second ∧
        c.program.Suits env true ∅ D ip op first second := fun {ip op} hip ho => by
    obtain ⟨first, second, hr⟩ := hD.splits.reads_at hip ho
    exact ⟨first, second, hr, hD.suits ip hip _ _ _ hr⟩
  refine ⟨hlast, fun ip hip ho => ?_, fun ip hip => ⟨fun ho => ?_, fun ho => ?_⟩,
    fun ip hip op hop ho hzero => ?_, fun ip hip op hop ho hfirst hzero => ?_, hD.loops,
    fun k d hd ip hip ho hk => ?_⟩
  · obtain ⟨first, second, -, hs⟩ := hsuits hip ho
    rcases hs.returns rfl with hempty | ⟨-, hend, -⟩
    · exact absurd hempty hne
    · exact hend
  · obtain ⟨first, second, -, hs⟩ := hsuits hip ho
    exact hlength hs.addresses
  · obtain ⟨first, second, -, hs⟩ := hsuits hip ho
    exact hlength hs.addresses
  · obtain ⟨first, second, hr, hs⟩ := hsuits hip ho
    simp only [List.mem_cons, List.not_mem_nil, or_false] at hop
    have hlevel : second.toNat + 1 = (c.program.outline :: env).length := by
      rcases hop with rfl | rfl <;> exact hs.addresses
    rw [← hr.second (by rcases hop with rfl | rfl <;> simp [Opcode.size]), hzero] at hlevel
    exact hlength hlevel.symm
  · obtain ⟨first, second, hr, hs⟩ := hsuits hip ho
    simp only [List.mem_cons, List.not_mem_nil, or_false] at hop
    rcases hop with rfl | rfl
    · obtain ⟨-, -, -, hmethod⟩ := hs.addresses
      have hlevel := hmethod ((hr.first (by simp [Opcode.size])).symm.trans hfirst)
      rw [← hr.second (by simp [Opcode.size]), hzero] at hlevel
      exact hlength hlevel.symm
    · obtain ⟨-, -, -, hslot⟩ := hs.addresses
      exact hslot ((hr.first (by simp [Opcode.size])).symm.trans hfirst)
  · obtain ⟨inner, hlength, hd⟩ := h.within hd
    obtain ⟨D', hD'⟩ := hd.labelled
    obtain ⟨first, second, hr⟩ := hD'.splits.reads_at hip ho
    obtain ⟨-, hlevel⟩ := (hD'.suits ip hip _ _ _ hr).addresses
    rw [← hr.first (by simp [Opcode.size]), hk, List.length_cons, List.length_append] at hlevel
    omega

/-- Scopes that are opened when a method is lowered, one inside another. -/
inductive Lower.Opened : List Scope → Prop
  | method {parameters locals : List String} {l l' : Lowering} {scopes : List Scope} :
      openScope [] "self" parameters locals l = .ok scopes l' → Opened scopes
  | block {outer scopes : List Scope} {parameters locals : List String} {l l' : Lowering} :
      Opened outer → openScope outer "$block" parameters locals l = .ok scopes l' → Opened scopes

theorem Lower.Opened.declare (h : Lower.Opened scopes) :
    ∃ frames, frames ≠ [] ∧ Scopes.Declare scopes frames := by
  have hopen : ∀ {outer scopes : List Scope} {env : List Outline} {first : String}
      {parameters locals : List String} {l l' : Lowering}, Scopes.Declare outer env →
      openScope outer first parameters locals l = .ok scopes l' →
      ∃ frames, frames ≠ [] ∧ Scopes.Declare scopes frames := by
    intro outer scopes env first parameters locals l l' hd hr
    have hsafe := openScope_safe (l := l) hd first parameters locals
    rw [Safe, hr] at hsafe
    exact ⟨_, by simp, hsafe.declare⟩
  induction h with
  | method hr => exact hopen ⟨.nil, Nat.zero_le _⟩ hr
  | block _ hr ih =>
    obtain ⟨frames, -, hd⟩ := ih
    exact hopen hd hr

/-- Lowering a method makes a code that passes the check, with all that is in it, or fails for
    what the tree asks for. So does lowering a block, in the scopes of any method; and the code that
    comes of it can be spliced. -/
theorem lower_without_defects (holder : ClassRef) (fields : List String) (inlining : Bool) :
    (∀ (m : MethodTree) (supply : Supply),
      Yields (m.lower holder fields inlining supply).result Code.Checked) ∧
    ∀ (selector : Selector) (scopes : List Scope), Lower.Opened scopes →
      ∀ (parameters locals : List String) (body : List Expr) (l : Lowering),
        (Lower.block ⟨holder, fields, selector, inlining⟩ scopes parameters locals body).Safe l
          fun code _ => code.Checked ∧
            code.Spliceable (if body.any Expr.isLeave then .returnNonLocal else .returnLocal) := by
  refine ⟨fun m supply => ?_, fun selector scopes hopened parameters locals body l => ?_⟩
  · exact (lower_safe m holder fields inlining supply).imp_left
      fun ⟨code, hr, hcode, _⟩ => ⟨code, hr, hcode.checked⟩
  · obtain ⟨frames, hne, hd⟩ := hopened.declare
    exact (Lower.block_safe ⟨holder, fields, selector, inlining⟩ scopes parameters locals body hd
      hne).mono fun code _ ⟨_, hcode⟩ =>
        ⟨hcode.lexical.checked, hcode.lexical.spliceable hne hcode.endsWith⟩

/-- A send that is inlined is lowered as the control-flow message that it is. -/
theorem Lower.expression_of_inlined {u : Subject} {receiver : Expr} {selector : Selector}
    {arguments : List Expr} {c : Control} (h : inlined? u receiver selector arguments = some c)
    (scopes : List Scope) :
    expression u scopes (.send receiver selector arguments) = control u scopes c := by
  rw [expression]
  split
  · rename_i c' hc
    rw [Option.some.inj (hc.symm.trans h)]
  · rename_i hc
    rw [h] at hc
    cases hc

/-- Whether lowering comes to something. -/
def Lower.succeeds {α : Type} (x : Lower α) (l : Lowering) : Bool :=
  match x l with
  | .ok _ _ => true
  | .error _ _ => false

/-- In the scope of a method with one local, a block with a branch that leaves the method is lowered
    to code that can be spliced. -/
theorem lower_without_defects_branch :
    let l : Lowering := ⟨default, 0, ⟨0, 0, 0, 0⟩, []⟩
    let body : List Expr := [.send (.constant (.bool true)) "ifTrue:"
      [.block [] [] [.leave (.variable "i")]]]
    Lower.Opened [⟨["self"], ["i"]⟩] ∧
      ∃ code l', Lower.block ⟨0, [], "find", true⟩ [⟨["self"], ["i"]⟩] [] [] body l = .ok code l' ∧
        code.Checked ∧ code.Spliceable .returnLocal := by
  intro l body
  have hopen : ∃ l', Lower.openScope [] "self" [] ["i"] l = .ok [⟨["self"], ["i"]⟩] l' := ⟨_, rfl⟩
  have hopened : Lower.Opened [⟨["self"], ["i"]⟩] := .method hopen.choose_spec
  have h := (lower_without_defects 0 [] true).2 "find" _ hopened [] [] body l
  have hbranch : Lower.inlined? ⟨0, [], "find", true⟩ (.constant (.bool true)) "ifTrue:"
      [.block [] [] [.leave (.variable "i")]] =
        some (.branch (.constant (.bool true)) false [] [.leave (.variable "i")]) := rfl
  have hok : (Lower.block ⟨0, [], "find", true⟩ [⟨["self"], ["i"]⟩] [] []
      [.send (.constant (.bool true)) "ifTrue:" [.block [] [] [.leave (.variable "i")]]]).succeeds
        ⟨default, 0, ⟨0, 0, 0, 0⟩, []⟩ := by
    simp only [Lower.block, Lower.statements, Lower.expression_of_inlined hbranch, Lower.control]
    simp only [Lower.expression]
    decide +kernel
  refine ⟨hopened, ?_⟩
  rw [Lower.Safe] at h
  cases hr : Lower.block ⟨0, [], "find", true⟩ [⟨["self"], ["i"]⟩] [] [] body l with
  | ok code l' =>
    rw [hr] at h
    exact ⟨code, l', rfl, h⟩
  | error e l' =>
    rw [Lower.succeeds, show Lower.block _ _ _ _ _ _ = _ from hr] at hok
    cases hok

end Parley
