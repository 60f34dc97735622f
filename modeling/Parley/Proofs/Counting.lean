import Parley.Proofs.Handing

/-!
# Loops over integers in codes that come of lowering

While a tree is lowered, every comparison that is written belongs to a loop over integers that is
complete (`Draft.Lays`).

* `Lower.countLoop_lays`: the loop that is written out for a loop over integers is complete;
* `Lower.count_hands`: its body finds its parameter where the loop puts the index;
* `lower_loops`: all loops in the codes of a method are complete.
-/

namespace Parley

variable {d : Draft} {H : Set (Nat × Jump)} {entry : Nat} {op : Opcode} {slot : UInt8}

/-! ### Steps of lowering -/

theorem Lowering.Ready.splits {env : List Outline} {O K : Set (Nat × Nat)} {n : Nat}
    {S : Set (Literal Code)} {scopes : List Scope} {o : Outline} {l : Lowering}
    (h : l.Ready o scopes env O K n S) : l.draft.tape.Splits :=
  h.stands.splits

namespace Lower

variable {α β : Type} {l : Lowering} {x : Lower α} {post mid : α → Lowering → Prop}
  {env frames : List Outline} {O K : Set (Nat × Nat)} {n : Nat} {S : Set (Literal Code)}
  {scopes : List Scope} {o : Outline} {u : Subject}

/-- What is true of a step of lowering if it succeeds. -/
def Runs (x : Lower α) (l : Lowering) (post : α → Lowering → Prop) : Prop :=
  ∀ a l', x l = .ok a l' → post a l'

theorem Safe.runs (h : x.Safe l post) : x.Runs l post := by
  intro a l' hr
  rw [Safe, hr] at h
  exact h

theorem Runs.mono (h : x.Runs l mid) (himp : ∀ a l', mid a l' → post a l') : x.Runs l post :=
  fun a l' hr => himp a l' (h a l' hr)

theorem Runs.and (h : x.Runs l mid) (h' : x.Runs l post) :
    x.Runs l fun a l' => mid a l' ∧ post a l' :=
  fun a l' hr => ⟨h a l' hr, h' a l' hr⟩

theorem Runs.pure {a : α} (h : post a l) : (Pure.pure a : Lower α).Runs l post := by
  rintro _ _ ⟨⟩
  exact h

theorem Runs.bind {f : α → Lower β} {post : β → Lowering → Prop} (hx : x.Runs l mid)
    (hf : ∀ a l', mid a l' → (f a).Runs l' post) : (x >>= f).Runs l post := by
  intro b l'' hr
  rw [show (x >>= f) l = EStateM.bind x f l from rfl, EStateM.bind] at hr
  split at hr
  · rename_i a l' hx'
    exact hf a l' (hx a l' hx') b l'' hr
  · cases hr

/-- What a step writes is behind what was written before. -/
theorem Safe.lay (hx : x.Safe l post) (hl : x.Runs l fun _ l' => l.draft.Lays l'.draft ∅)
    (h : l.Ready o scopes env O K n S) (hd : d.Lays l.draft H) :
    x.Runs l fun a l' => post a l' ∧ d.Lays l'.draft H :=
  fun a l' hr => ⟨hx.runs a l' hr, hd.trans' h.stands.splits (hl a l' hr)⟩

theorem position_runs : position.Runs l fun head l' => head = l.draft.position ∧ l = l' := by
  rintro _ _ ⟨⟩
  exact ⟨rfl, rfl⟩

theorem onDraft_runs {f : Draft → Except CompileError (α × Draft)} :
    (onDraft f).Runs l fun a l' => f l.draft = .ok (a, l'.draft) := by
  intro a l' hr
  cases hf : f l.draft with
  | error e =>
    simp only [onDraft, get_bind, hf] at hr
    cases hr
  | ok r =>
    simp only [onDraft, get_bind, hf] at hr
    cases hr
    rfl

theorem changeDraft_runs {f : Draft → Except CompileError Draft} :
    (changeDraft f).Runs l fun _ l' => f l.draft = .ok l'.draft := by
  refine Runs.mono onDraft_runs fun _ l' hr => ?_
  cases hf : f l.draft with
  | error e =>
    rw [hf] at hr
    cases hr
  | ok d =>
    rw [hf] at hr
    cases hr
    rfl

theorem emit_puts (h : l.draft.tape.Splits) (op : Opcode) (operands : List UInt8)
    (hn : operands.length + 1 = op.size) (hop : ∀ wide, op ≠ .jump .greater wide) :
    (emit op operands).Runs l fun _ l' =>
      l.draft.Puts l'.draft ∅ op (operands.getD 0 0) (operands.getD 1 0) := by
  rintro _ _ ⟨⟩
  exact Draft.emit_puts h hn hop

theorem emit_lays (h : l.draft.tape.Splits) (op : Opcode) (operands : List UInt8)
    (hn : operands.length + 1 = op.size) (hop : ∀ wide, op ≠ .jump .greater wide) :
    (emit op operands).Runs l fun _ l' => l.draft.Lays l'.draft ∅ :=
  (emit_puts h op operands hn hop).mono fun _ _ hputs => hputs.lays

theorem emitLiteral_lays (h : l.draft.tape.Splits) {m : Literal Code} (hop : op.size = 2)
    (hm : ∀ b, m = .block b → b.Loops) :
    (emitLiteral op m).Runs l fun _ l' => l.draft.Lays l'.draft ∅ := by
  refine Runs.mono changeDraft_runs fun _ l' hr => ?_
  rw [Draft.emitLiteral] at hr
  split at hr
  · cases hr
  · rename_i index d' hadd
    have hn : [index].length + 1 = op.size := hop.symm
    rcases Draft.addLiteral_cases hadd with ⟨rfl, -⟩ | ⟨-, -, rfl⟩
    all_goals obtain hr := (Except.ok.inj hr).symm
    · rw [hr]
      exact (Draft.emit_puts h hn fun wide hw => by subst hw; cases hop).lays
    · have htape : l'.draft.tape = l.draft.tape ++ Tape.written op [index] := by
        rw [hr]
        exact Draft.emit_tape _ op [index]
      have hliterals : l'.draft.literals = l.draft.literals.push m := by
        rw [hr]
        rfl
      refine (Draft.puts_of_written (H := ∅) op [index] h hn htape (fun i k hk => ?_)
        (fun b hb => ?_) (fun _ hx => hx.elim) fun wide hw => by subst hw; cases hop).lays
      · have hlt := (Array.getElem?_eq_some_iff.1 hk).1
        rw [hliterals, Array.getElem?_push_lt hlt, ← hk, Array.getElem?_eq_getElem hlt]
      · rw [hliterals] at hb
        rcases Array.mem_push.1 hb with hb | hb
        · exact .inl hb
        · exact .inr (hm b hb.symm)

theorem constant_lays (h : l.draft.tape.Splits) (c : Constant) :
    (constant c).Runs l fun _ l' => l.draft.Lays l'.draft ∅ := by
  have hvalue : ∀ {l : Lowering} (v : Value), l.draft.tape.Splits →
      (emitLiteral .pushConstant (.value v)).Runs l fun _ l' => l.draft.Lays l'.draft ∅ :=
    fun v h => emitLiteral_lays h rfl (by simp)
  cases c with
  | nil => exact emit_lays h .pushNil [] rfl (by simp)
  | bool _ | double _ | symbol _ => exact hvalue _ h
  | int i =>
    rw [constant]
    split
    · exact emit_lays h .pushZero [] rfl (by simp)
    · split
      · exact emit_lays h .pushOne [] rfl (by simp)
      · exact hvalue _ h
  | string s =>
    rw [constant]
    have hfresh : freshString.Runs l fun _ l' => l'.draft = l.draft := by
      rintro _ _ ⟨⟩
      rfl
    exact hfresh.bind fun _ _ hd => hd ▸ hvalue _ (hd ▸ h)

theorem read_lays (h : l.draft.tape.Splits) (u : Subject) (scopes : List Scope) (name : String) :
    (read u scopes name).Runs l fun _ l' => l.draft.Lays l'.draft ∅ := by
  rw [read]
  split
  · split
    · exact emit_lays h .pushSelf [] rfl (by simp)
    · exact emit_lays h (.push .argument) _ rfl (by simp)
  · exact emit_lays h (.push .argument) _ rfl (by simp)
  · exact emit_lays h (.push .temporary) _ rfl (by simp)
  · exact emit_lays h (.push .field) _ rfl (by simp)
  · exact emit_lays h .pushNil [] rfl (by simp)
  · exact emitLiteral_lays h rfl (by simp)
  · exact emitLiteral_lays h rfl (by simp)

theorem write_lays (h : l.draft.tape.Splits) (u : Subject) (scopes : List Scope) (name : String) :
    (write u scopes name).Runs l fun _ l' => l.draft.Lays l'.draft ∅ := by
  rw [write]
  split
  · exact emit_lays h (.pop .argument) _ rfl (by simp)
  · exact emit_lays h (.pop .temporary) _ rfl (by simp)
  · exact emit_lays h (.pop .field) _ rfl (by simp)
  all_goals rintro _ _ ⟨⟩

/-- A forward jump is opened. -/
theorem emitJump_puts (h : l.draft.tape.Splits) (j : Jump) :
    (emitJump (.jump j false)).Runs l fun ip l' => ip = l.draft.position ∧
      l.draft.Puts l'.draft {(ip, j)} (.jump j false) 0 0 := by
  rintro _ _ ⟨⟩
  refine ⟨rfl, Draft.puts_of_written (.jump j false) [0, 0] h rfl (Draft.emit_tape _ _ _)
    (fun _ _ hl => hl) (fun _ hb => .inl hb) ?_ ?_⟩
  · rintro x rfl
    exact ⟨rfl, rfl⟩
  · intro wide hop
    obtain ⟨rfl, -⟩ := Opcode.jump.inj hop
    rfl

/-- A jump back leads to its head. -/
theorem emitBack_puts (h : l.draft.tape.Splits) {head : Nat} (hle : head ≤ l.draft.position) :
    (emitBack head).Runs l fun _ l' => ∃ wide first second,
      l.draft.Puts l'.draft ∅ (.jump .back wide) first second ∧
        l'.draft.tape.jumpTarget? l.draft.position .back wide = some head := by
  refine Runs.mono changeDraft_runs fun _ l' hr => ?_
  obtain ⟨wide, hlong, hshort, hd⟩ := Draft.emitBack_cases hle hr
  let bytes := Draft.distanceBytes (l.draft.position - head)
  have htape : l'.draft.tape =
      l.draft.tape ++ Tape.written (.jump .back wide) [bytes.1, bytes.2] := by
    rw [hd]
    exact Draft.emit_tape _ _ _
  have hliterals : l'.draft.literals = l.draft.literals := by
    rw [hd]
    rfl
  have hputs : l.draft.Puts l'.draft ∅ (.jump .back wide) bytes.1 bytes.2 :=
    Draft.puts_of_written (.jump .back wide) [_, _] h rfl htape
      (fun _ _ hl => hliterals ▸ hl) (fun _ hb => .inl (hliterals ▸ hb)) (fun _ hx => hx.elim) nofun
  have hdistance : l'.draft.tape.distance l.draft.position wide = l.draft.position - head :=
    hputs.reads.distance.trans (Draft.jumpDistance_distanceBytes hlong hshort)
  refine ⟨wide, _, _, hputs, ?_⟩
  rw [Tape.jumpTarget?, if_pos rfl, hdistance, if_pos (Nat.sub_le _ _), Nat.sub_sub_self hle]

theorem patchHere_points {x : Nat} {j : Jump} (h : l.draft.tape.Splits)
    (hd : d.Lays l.draft (insert (x, j) H)) :
    (patchHere x).Runs l fun _ l' => l.draft.Points l'.draft x l.draft.position j := by
  obtain ⟨-, hx, wide, _, _, hr⟩ := hd.opened (x, j) (.inl rfl)
  exact Runs.mono changeDraft_runs fun _ l' hp =>
    Draft.points_of_patch h hx hr (Tape.lt_of_mem_startsFrom hx) hp

/-- An open jump that is no comparison gets its target. -/
theorem patchHere_lays {x : Nat} {j : Jump} (h : l.draft.tape.Splits)
    (hd : d.Lays l.draft (insert (x, j) H)) (hH : ∀ y ∈ H, y.1 ≠ x) (hj : j ≠ .greater) :
    (patchHere x).Runs l fun _ l' => d.Lays l'.draft H :=
  (patchHere_points h hd).mono fun _ _ hp => hd.points hH h hp fun h => absurd h hj

theorem splice_runs {c : Code} :
    (splice c).Runs l fun _ l' => l.draft.splice c l.supply.code =
      .ok (l'.draft, l'.supply.code) := by
  intro a l' hr
  cases hs : l.draft.splice c l.supply.code with
  | error e =>
    simp only [splice, get_bind, hs] at hr
    cases hr
  | ok r =>
    simp only [splice, get_bind, hs] at hr
    cases hr
    rfl

theorem splice_lays {c : Code} (h : l.Ready o scopes env O K n c.parts)
    (hc : c.Lexical (l.draft.outline :: env)) (hloops : c.Loops) :
    (splice c).Runs l fun _ l' => l.draft.Lays l'.draft ∅ ∧
      ∃ R, l'.draft.program.Region l.draft.position l'.draft.position R ∧
        R l.draft.position 0 :=
  ((splice_safe h hc).runs.and splice_runs).mono fun _ _ ⟨h', hs⟩ =>
    h.stands.splice_lays hc h.numbered hloops hs h'.stands

/-- An argument that has a slot already is found there in the block that is put in place. -/
theorem splice_embeds {c : Code} {v : Variable} {i : Nat}
    (h : l.Ready o scopes env O K n c.parts) (hc : c.Lexical (l.draft.outline :: env))
    (hv : v.slot? l.draft.locals = some slot) (hi : 0 < i)
    (harg : c.program.arguments[i]? = some v) :
    (splice c).Runs l fun _ l' => ∃ m place,
      l'.draft.Embeds c.program m l.draft.position l'.draft.position place ∧
        m.arguments[i]? = some (some slot) := by
  refine splice_runs.mono fun _ l' hs => ?_
  obtain ⟨m, d₁, place, hmerge, hembeds⟩ := h.stands.splice_embeds hc h.numbered hs
  exact ⟨m, place, hembeds, Draft.mergeBlock_argument hmerge hv hi harg⟩

theorem emit_locals (op : Opcode) (operands : List UInt8) :
    (emit op operands).Runs l fun _ l' => l'.draft.locals = l.draft.locals := by
  rintro _ _ ⟨⟩
  rfl

theorem emitJump_locals (op : Opcode) :
    (emitJump op).Runs l fun _ l' => l'.draft.locals = l.draft.locals := by
  rintro _ _ ⟨⟩
  rfl

/-- The loop that is written out for a loop over integers, with the index on the stack at `entry`.
    The parameter of its body has the slot already that the index is put into. -/
theorem countLoop_lays {code : Code} {v : Variable}
    (h : l.Ready o scopes env O K (n + 3) code.parts)
    (hc : code.Lexical (l.draft.outline :: env)) (hslot : slot.toNat < l.draft.outline.locals)
    (harg : code.program.arguments[1]? = some v) (hv : v.slot? l.draft.locals = some slot)
    (hloops : code.Loops) (hd : d.Lays l.draft ∅) (hle : d.position ≤ entry)
    (hentry : entry ∈ l.draft.tape.starts) (hr : l.draft.tape.Reads entry .dupSecond 0 0)
    (hnext : l.draft.position = entry + 1) :
    Runs (do
      let head ← position
      let done ← emitJump (.jump .greater false)
      emit .dup []
      emit (.pop .temporary) [slot, 0]
      splice code
      emit .drop []
      emit (.step true) []
      emitBack head
      patchHere done) l fun _ l' => d.Lays l'.draft ∅ ∧ l'.draft.Hands code.program := by
  refine (position_runs.and (position_safe h.rebase).runs).bind ?_
  rintro _ _ ⟨⟨rfl, rfl⟩, h₁⟩
  -- The comparison is open until the end of the loop is known.
  refine ((emitJump_safe h₁ (j := .greater) (by simp) (by simp [Jump.effect]) fun _ => rfl).runs.and
    ((emitJump_puts h₁.splits .greater).and (emitJump_locals _))).bind ?_
  rintro _ l₂ ⟨⟨hdone, h₂⟩, ⟨rfl, hjump⟩, v₂⟩
  refine ((emitOp_safe .dup h₂ rfl rfl trivial (by simp [Jump.effect]) (by simp) rfl).runs.and
    ((emit_puts h₂.splits .dup [] rfl (by simp)).and (emit_locals _ _))).bind ?_
  rintro _ l₃ ⟨h₃, hdup, v₃⟩
  refine ((popLocal_safe h₃ hslot).runs.and ((emit_puts h₃.splits (.pop .temporary) [slot, 0] rfl
    (by simp)).and (emit_locals _ _))).bind ?_
  rintro _ l₄ ⟨h₄, hpop, v₄⟩
  have hc₄ : code.Lexical (l₄.draft.outline :: env) :=
    hc.mono (.cons h₄.frame (Outlines.Le.refl env))
  have hv₄ : v.slot? l₄.draft.locals = some slot := by rw [v₄, v₃, v₂, hv]
  refine ((splice_safe h₄ hc₄).runs.and ((splice_lays h₄ hc₄ hloops).and
    (splice_embeds h₄ hc₄ hv₄ Nat.one_pos harg))).bind ?_
  rintro _ l₅ ⟨h₅, ⟨hsplice, hbody⟩, m, place, hembeds, hparameter⟩
  refine ((emitOp_safe .drop h₅ rfl rfl trivial (by simp) (by simp) rfl).runs.and
    (emit_puts h₅.splits .drop [] rfl (by simp))).bind ?_
  rintro _ l₆ ⟨h₆, hdrop⟩
  refine ((emitOp_safe (.step true) h₆ rfl rfl trivial (by simp [Jump.effect]) (by simp)
    rfl).runs.and
    (emit_puts h₆.splits (.step true) [] rfl (by simp))).bind ?_
  rintro _ l₇ ⟨h₇, hstep⟩
  have p₂ : l₂.draft.position = entry + 4 := by
    rw [hjump.position, hnext]
    rfl
  have p₃ : l₃.draft.position = entry + 5 := by
    rw [hdup.position, p₂]
    rfl
  have p₄ : l₄.draft.position = entry + 8 := by
    rw [hpop.position, p₃]
    rfl
  have p₆ : l₆.draft.position = l₅.draft.position + 1 := hdrop.position
  have p₇ : l₇.draft.position = l₅.draft.position + 2 := by
    rw [hstep.position, p₆]
    rfl
  have hle₅ := hsplice.position_le
  refine ((emitBack_safe h₇ (.inl rfl) (n + 1)).runs.and
    (emitBack_puts h₇.splits (by omega))).bind ?_
  rintro _ l₈ ⟨h₈, wide, first, second, hback, htarget⟩
  -- All that was written is there at the end.
  have l₇₈ := hback.lays
  have l₆₈ := hstep.lays.trans' h₇.splits l₇₈
  have l₅₈ := hdrop.lays.trans' h₆.splits l₆₈
  have l₄₈ := hsplice.trans' h₅.splits l₅₈
  have l₃₈ := hpop.lays.trans' h₄.splits l₄₈
  have l₂₈ := hdup.lays.trans' h₃.splits l₃₈
  have l₁₈ := hjump.lays.trans' h₂.splits l₂₈
  have hd₈ : d.Lays l₈.draft (insert (l.draft.position, .greater) ∅) := by
    have hlays := hd.trans h.splits l₁₈
    rwa [Set.empty_union, ← insert_empty_eq] at hlays
  refine (patchHere_points h₈.splits hd₈).mono fun _ l' hpoints => ?_
  have p₈ : l₈.draft.position = l₅.draft.position + 5 := by
    rw [hback.position, p₇]
    rfl
  have hcounts : l'.draft.program.Counts entry l₅.draft.position slot := by
    rw [hnext, p₈] at hpoints
    rw [hnext, p₇] at htarget
    obtain ⟨R, hR, hstart⟩ := hbody
    rw [p₄] at hR hstart
    have hR' := hR.copy (l₅₈.copies h₅.splits _ _)
    exact hpoints.counts h₈.splits (l₁₈.mem_starts h.splits hentry)
      (l₆₈.mem_starts h₆.splits hdrop.mem)
      (l₁₈.reads hr) (hnext ▸ l₂₈.reads hjump.reads) (p₂ ▸ l₃₈.reads hdup.reads)
      (p₃ ▸ l₄₈.reads hpop.reads) ⟨_, hR', _, hstart, rfl⟩ (l₆₈.reads hdrop.reads)
      (p₆ ▸ l₇₈.reads hstep.reads) ⟨wide, first, second, p₇ ▸ hback.reads, htarget⟩
  refine ⟨hd₈.points (by simp) h₈.splits hpoints fun _ =>
    ⟨entry, l₅.draft.position, slot, hnext, hle, hcounts, by simp⟩,
    entry, l₅.draft.position, slot, m, place, hcounts, ?_, hparameter⟩
  rw [p₄] at hembeds
  exact (hembeds.lays h₅.splits l₅₈).points hpoints (by omega)

/-! ### Scopes -/

theorem closeScope_loops {op : Opcode} (h : l.draft.Complete env op)
    (hp : l.draft.program.Loops ∧ ∀ b, .block b ∈ l.draft.literals → b.Loops)
    (signature : Selector) (isBlock : Bool) :
    (closeScope u signature isBlock).Runs l fun code _ => code.Loops := by
  obtain ⟨maxStack, hfinish⟩ := h.finish
  obtain ⟨D, hD⟩ := h.labelled
  intro code l' hr
  simp only [closeScope, get_bind, hfinish] at hr
  cases hr
  exact ⟨hp.1.congr hD.splits rfl rfl, hp.2⟩

/-! ### Control flow -/

/-- Wherever an expression is lowered, the loops that are written then are complete. -/
def ExpressionLays (u : Subject) (scopes : List Scope) (e : Expr) : Prop :=
  ∀ ⦃l : Lowering⦄ ⦃o : Outline⦄ ⦃env : List Outline⦄ ⦃O K : Set (Nat × Nat)⦄ ⦃n : Nat⦄,
    l.Ready o scopes env O K n ∅ →
      (expression u scopes e).Runs l fun _ l' => l.draft.Lays l'.draft ∅

/-- Wherever a block is lowered, the loops in its code are complete. -/
def BlockLays (u : Subject) (scopes : List Scope) (parameters locals : List String)
    (body : List Expr) : Prop :=
  ∀ ⦃l : Lowering⦄ ⦃frames : List Outline⦄, Scopes.Declare scopes frames → frames ≠ [] →
    (block u scopes parameters locals body).Runs l fun code l' => l'.draft = l.draft ∧ code.Loops

section Control

variable {condition start limit : Expr} {on : Bool} {parameter : String}
  {parameters locals locals₁ locals₂ : List String} {body body₁ body₂ : List Expr}

/-- An expression, and what is written behind it. -/
theorem ExpressionLays.bind {e : Expr} {f : Unit → Lower α} {post : α → Lowering → Prop}
    (he : ExpressionLays u scopes e) (h : l.Ready o scopes env O K n ∅) (hd : d.Lays l.draft H)
    (hf : ∀ l', l'.Ready o scopes env O K (n + 1) ∅ → d.Lays l'.draft H → (f ()).Runs l' post) :
    (expression u scopes e >>= f).Runs l post :=
  ((expression_safe u e h).lay (he h) h hd).bind fun _ l' ⟨h', d'⟩ => hf l' h' d'

/-- A block, and what is written behind it with its code at hand. -/
theorem BlockLays.bind {f : Code → Lower α} {post : α → Lowering → Prop}
    (hb : BlockLays u scopes parameters locals body) (h : l.Ready o scopes env O K n ∅)
    (hf : ∀ code l', block u scopes parameters locals body l = .ok code l' →
      l'.draft = l.draft → l'.Ready o scopes env O K n code.parts →
      code.OfBlock (l'.draft.outline :: env) parameters body → code.Loops → (f code).Runs l' post) :
    (block u scopes parameters locals body >>= f).Runs l post := by
  refine (((block_safe u scopes parameters locals body h.declare (by simp)).ready h).runs.and
    ((hb h.declare (by simp)).and fun _ _ hr => hr)).bind ?_
  rintro code l' ⟨⟨h', hc⟩, ⟨hd', hloops⟩, hr⟩
  exact hf code l' hr hd' h' hc hloops

/-- A block that is put in place, and what is written behind it. -/
theorem BlockLays.inline {f : Unit → Lower α} {post : α → Lowering → Prop}
    (hb : BlockLays u scopes parameters locals body) (h : l.Ready o scopes env O K n ∅)
    (hd : d.Lays l.draft H)
    (hf : ∀ l', l'.Ready o scopes env O K (n + 1) ∅ → d.Lays l'.draft H → (f ()).Runs l' post) :
    (block u scopes parameters locals body >>= fun code => splice code >>= f).Runs l post := by
  refine hb.bind h fun code l₁ _ hdraft h₁ hc hloops => ?_
  refine ((splice_safe h₁ hc.lexical).lay ((splice_lays h₁ hc.lexical hloops).mono
    fun _ _ hs => hs.1) h₁ (hdraft ▸ hd)).bind fun _ l₂ ⟨h₂, d₂⟩ => hf l₂ h₂ d₂

theorem branch_lays (he : ExpressionLays u scopes condition)
    (hb : BlockLays u scopes [] locals body) (h : l.Ready o scopes env O K n ∅) :
    (control u scopes (.branch condition on locals body)).Runs l
      fun _ l' => l.draft.Lays l'.draft ∅ := by
  rw [control]
  refine he.bind h (.of_eq rfl rfl) fun l₁ h₁ d₁ => ?_
  refine ((emitJump_safe h₁ (by simp) (by simp [Jump.effect]) fun _ => rfl).runs.and
    (emitJump_puts h₁.splits (.test on true))).bind ?_
  rintro skip l₂ ⟨⟨-, h₂⟩, rfl, hskip⟩
  refine hb.inline h₂ (d₁.trans h₁.splits hskip.lays) fun l₃ h₃ d₃ => ?_
  rw [Set.empty_union, ← insert_empty_eq] at d₃
  exact patchHere_lays h₃.splits d₃ (by simp) nofun

theorem choice_lays (he : ExpressionLays u scopes condition)
    (hb₁ : BlockLays u scopes [] locals₁ body₁) (hb₂ : BlockLays u scopes [] locals₂ body₂)
    (h : l.Ready o scopes env O K n ∅) :
    (control u scopes (.choice condition on locals₁ body₁ locals₂ body₂)).Runs l
      fun _ l' => l.draft.Lays l'.draft ∅ := by
  rw [control]
  refine he.bind h (.of_eq rfl rfl) fun l₁ h₁ d₁ => ?_
  refine ((emitJump_safe h₁ (by simp) (by simp [Jump.effect]) fun _ => rfl).runs.and
    (emitJump_puts h₁.splits (.test on false))).bind ?_
  rintro other l₂ ⟨⟨hother, h₂⟩, rfl, hjump⟩
  refine hb₁.inline h₂ (d₁.trans h₁.splits hjump.lays) fun l₃ h₃ d₃ => ?_
  refine ((emitAlways_safe h₃ n).runs.and (emitJump_puts h₃.splits .always)).bind ?_
  rintro done l₄ ⟨⟨-, h₄⟩, rfl, halways⟩
  have d₄ := d₃.trans h₃.splits halways.lays
  rw [Set.empty_union, Set.singleton_union] at d₄
  -- The jump to the other branch is closed first, and it is not the one to the end.
  have h₄ : l₄.Ready o scopes env (insert (l₁.draft.position, n)
      (insert (l₃.draft.position, n + 1) O)) K n ∅ := Set.insert_comm _ _ _ ▸ h₄
  have hne : l₃.draft.position ≠ l₁.draft.position := by
    rw [Set.empty_union] at d₃
    obtain ⟨-, hmem, -⟩ := d₃.opened _ rfl
    exact (Tape.lt_of_mem_startsFrom hmem).ne'
  refine ((patchHere_safe h₄ ?_).runs.and (patchHere_lays h₄.splits d₄ ?_ nofun)).bind ?_
  · rintro x (rfl | hx)
    · exact hne
    · exact hother x hx
  · rintro y rfl
    exact hne
  rintro _ l₅ ⟨h₅, d₅⟩
  refine hb₂.inline h₅ d₅ fun l₆ h₆ d₆ => ?_
  rw [← insert_empty_eq] at d₆
  exact patchHere_lays h₆.splits d₆ (by simp) nofun

theorem loop_lays (hb₁ : BlockLays u scopes [] locals₁ body₁)
    (hb₂ : BlockLays u scopes [] locals₂ body₂) (h : l.Ready o scopes env O K n ∅) :
    (control u scopes (.loop on locals₁ body₁ locals₂ body₂)).Runs l
      fun _ l' => l.draft.Lays l'.draft ∅ := by
  rw [control]
  refine (position_runs.and (position_safe h).runs).bind ?_
  rintro head _ ⟨⟨rfl, rfl⟩, h₁⟩
  refine hb₁.inline h₁ (.of_eq rfl rfl) fun l₂ h₂ d₂ => ?_
  refine ((emitJump_safe h₂ (by simp) (by simp [Jump.effect]) fun _ => rfl).runs.and
    (emitJump_puts h₂.splits (.test on false))).bind ?_
  rintro done l₃ ⟨⟨hdone, h₃⟩, rfl, hjump⟩
  refine hb₂.inline h₃ (d₂.trans h₂.splits hjump.lays) fun l₄ h₄ d₄ => ?_
  refine ((emitOp_safe .drop h₄ rfl rfl trivial (by omega) (by simp) rfl).lay
    (emit_lays h₄.splits .drop [] rfl (by simp)) h₄ d₄).bind ?_
  rintro _ l₅ ⟨h₅, d₅⟩
  have hback : (emitBack l.draft.position).Runs l₅ fun _ l' => l₅.draft.Lays l'.draft ∅ := by
    refine (emitBack_puts h₅.splits d₅.position_le).mono ?_
    rintro _ _ ⟨_, _, _, hputs, -⟩
    exact hputs.lays
  refine ((emitBack_safe h₅ (.inl rfl) n).lay hback h₅ d₅).bind ?_
  rintro _ l₆ ⟨h₆, d₆⟩
  rw [Set.empty_union, ← insert_empty_eq] at d₆
  refine ((patchHere_safe h₆ hdone).runs.and
    (patchHere_lays h₆.splits d₆ (by simp) (by simp))).bind ?_
  rintro _ l₇ ⟨h₇, d₇⟩
  exact (emit_lays h₇.splits .pushNil [] rfl (by simp)).mono fun _ _ d₈ => d₇.trans' h₇.splits d₈

theorem count_lays (hstart : ExpressionLays u scopes start) (hlimit : ExpressionLays u scopes limit)
    (hb : BlockLays u scopes [parameter] locals body) (h : l.Ready o scopes env O K n ∅) :
    (control u scopes (.count start limit parameter locals body)).Runs l
      fun _ l' => l.draft.Lays l'.draft ∅ ∧ ∃ l₁ code l₂,
        block u scopes [parameter] locals body l₁ = .ok code l₂ ∧ l'.draft.Hands code.program := by
  rw [control]
  refine hstart.bind h (.of_eq rfl rfl) fun l₁ h₁ d₁ => ?_
  refine hlimit.bind h₁ d₁ fun l₂ h₂ d₂ => ?_
  refine ((emitOp_safe .dupSecond h₂ rfl rfl trivial (by omega) (by simp) rfl).runs.and
    (emit_puts h₂.splits .dupSecond [] rfl (by simp))).bind ?_
  rintro _ l₃ ⟨h₃, hdup⟩
  have d₃ := d₂.trans' h₂.splits hdup.lays
  refine hb.bind h₃ fun code l₄ hcode hdraft h₄ hc hloops => ?_
  -- The body has an index argument beside argument zero, which gets a slot of the scope around.
  obtain ⟨v, hv⟩ : ∃ v, code.program.arguments[1]? = some v :=
    ⟨_, Array.getElem?_eq_getElem (by rw [hc.arguments]; simp)⟩
  simp only [hv]
  refine ((mergeLocal_safe h₄ v).runs.and onDraft_runs).bind ?_
  rintro slot l₅ ⟨⟨hslot, hle, h₅⟩, hmerge⟩
  have htape := Draft.mergeLocal_tape hmerge
  rw [← hdraft] at d₃ hdup
  have d₅ := d₃.trans' h₄.splits (.of_eq htape (Draft.mergeLocal_literals hmerge))
  refine (countLoop_lays h₅ (hc.lexical.mono (.cons hle (Outlines.Le.refl env))) hslot hv
    (Draft.mergeLocal_slot? hmerge) hloops d₅ d₂.position_le ?_ ?_ ?_).mono
      fun _ _ hloop => ⟨hloop.1, l₃, code, l₄, hcode, hloop.2⟩
  · rw [htape]
    exact hdup.mem
  · rw [htape]
    exact hdup.reads
  · rw [Draft.position, htape]
    exact hdup.position

end Control

/-! ### Trees -/

mutual

theorem expression_lays (u : Subject) (scopes : List Scope) (e : Expr) :
    ExpressionLays u scopes e := by
  intro l o env O K n h
  have hd : l.draft.Lays l.draft ∅ := .of_eq rfl rfl
  match e with
  | .constant c =>
    rw [expression]
    exact constant_lays h.splits c
  | .variable name =>
    rw [expression]
    exact read_lays h.splits u scopes name
  | .assign name value =>
    rw [expression]
    exact (expression_lays u scopes value).bind h hd fun _ h₁ d₁ =>
      ((emitOp_safe .dup h₁ rfl rfl trivial (by omega) nofun rfl).lay
        (emit_lays h₁.splits .dup [] rfl nofun) h₁ d₁).bind fun _ _ ⟨h₂, d₂⟩ =>
        (write_lays h₂.splits u scopes name).mono fun _ _ d₃ => d₂.trans' h₂.splits d₃
  | .send receiver selector arguments =>
    rw [expression]
    split
    · rename_i c hc
      exact control_lays u c h
    · refine (checkArity_safe l selector arguments.length).runs.bind ?_
      rintro _ _ ⟨rfl, ha⟩
      exact (expression_lays u scopes receiver).bind h hd fun _ h₁ d₁ =>
        ((expressions_safe u arguments h₁).lay (expressions_lays u arguments h₁) h₁ d₁).bind
          fun _ _ ⟨h₂, d₂⟩ =>
          (emitLiteral_lays h₂.splits rfl (by simp)).mono fun _ _ d₃ => d₂.trans' h₂.splits d₃
  | .superSend selector arguments =>
    rw [expression]
    refine (checkArity_safe l selector arguments.length).runs.bind ?_
    rintro _ _ ⟨rfl, ha⟩
    exact ((read_safe h u "self").lay (read_lays h.splits u scopes "self") h hd).bind
      fun _ _ ⟨h₁, d₁⟩ =>
      ((expressions_safe u arguments h₁).lay (expressions_lays u arguments h₁) h₁ d₁).bind
        fun _ _ ⟨h₂, d₂⟩ =>
        (emitLiteral_lays h₂.splits rfl (by simp)).mono fun _ _ d₃ => d₂.trans' h₂.splits d₃
  | .block parameters locals body =>
    rw [expression]
    refine (block_lays u scopes parameters locals body).bind h
      fun code l₁ _ hdraft h₁ _ hloops => ?_
    refine (emitLiteral_lays h₁.splits rfl fun b hb => ?_).mono fun _ _ d₂ => hdraft ▸ d₂
    cases hb
    exact hloops
  | .leave value =>
    rw [expression]
    refine (expression_lays u scopes value).bind h hd fun _ h₁ d₁ => ?_
    dsimp only
    split
    · exact (emit_lays h₁.splits .returnLocal [] rfl nofun).mono fun _ _ d₂ =>
        d₁.trans' h₁.splits d₂
    · exact (emit_lays h₁.splits .returnNonLocal [_] rfl nofun).mono
        fun _ _ d₂ => d₁.trans' h₁.splits d₂
termination_by (sizeOf e, 0)
decreasing_by
  all_goals first
    | (have h := inlined?_size ‹_›; exact Prod.Lex.left _ _ h)
    | decreasing_tactic

theorem expressions_lays (u : Subject) (es : List Expr) {l : Lowering} {o : Outline}
    {scopes : List Scope} {env : List Outline} {O K : Set (Nat × Nat)} {n : Nat}
    (h : l.Ready o scopes env O K n ∅) :
    (expressions u scopes es).Runs l fun _ l' => l.draft.Lays l'.draft ∅ := by
  match es with
  | [] =>
    rw [expressions]
    exact .pure (.of_eq rfl rfl)
  | e :: rest =>
    rw [expressions]
    exact (expression_lays u scopes e).bind h (.of_eq rfl rfl) fun _ h₁ d₁ =>
      (expressions_lays u rest h₁).mono fun _ _ d₂ => d₁.trans' h₁.splits d₂
termination_by (sizeOf es, 0)

theorem control_lays (u : Subject) (c : Control) {l : Lowering} {o : Outline} {scopes : List Scope}
    {env : List Outline} {O K : Set (Nat × Nat)} {n : Nat} (h : l.Ready o scopes env O K n ∅) :
    (control u scopes c).Runs l fun _ l' => l.draft.Lays l'.draft ∅ := by
  match c with
  | .branch condition on locals body =>
    exact branch_lays (expression_lays u scopes condition) (block_lays u scopes [] locals body) h
  | .choice condition on locals₁ body₁ locals₂ body₂ =>
    exact choice_lays (expression_lays u scopes condition) (block_lays u scopes [] locals₁ body₁)
      (block_lays u scopes [] locals₂ body₂) h
  | .loop on locals₁ condition locals₂ body =>
    exact loop_lays (block_lays u scopes [] locals₁ condition)
      (block_lays u scopes [] locals₂ body) h
  | .count start limit parameter locals body =>
    exact (count_lays (expression_lays u scopes start) (expression_lays u scopes limit)
      (block_lays u scopes [parameter] locals body) h).mono fun _ _ h => h.1
termination_by (c.size + 1, 0)
decreasing_by
  all_goals
    apply Prod.Lex.left
    simp only [Control.size]
    omega

theorem block_lays (u : Subject) (scopes : List Scope) (parameters locals : List String)
    (body : List Expr) : BlockLays u scopes parameters locals body := by
  intro l frames h hne
  rw [block]
  have hcount : (modify fun l => { l with blocks := l.blocks + 1 } : Lower PUnit).Runs l
      fun _ l' => l'.draft = l.draft := by
    rintro _ _ ⟨⟩
    rfl
  refine hcount.bind fun _ l₁ h₁ => ?_
  rw [← h₁]
  -- The draft of the scope around is put aside here.
  have hget : ∀ {α : Type} {f : Lowering → Lower α} {post : α → Lowering → Prop},
      (f l₁).Runs l₁ post → (get >>= f).Runs l₁ post := fun h => h
  refine hget ?_
  extract_lets signature
  refine ((openScope_safe h "$block" parameters locals).runs.and
    (openScope_blank scopes "$block" parameters locals).runs).bind ?_
  rintro inner l₂ ⟨h₂, -, -, hblank⟩
  extract_lets rest
  have hzero : l₂.draft.position = 0 := by
    rw [Draft.position, hblank.tape]
    rfl
  have hrest : ∀ l₃ : Lowering, l₃.Ready ⟨parameters.length + 1, locals.length⟩ inner frames ∅ ∅
      (if body.isEmpty then 1 else 0) ∅ → l₂.draft.Lays l₃.draft ∅ → (rest ()).Runs l₃
        fun code l' => l'.draft = l₁.draft ∧ code.Loops := by
    intro l₃ h₃ d₃
    refine ((statements_safe u body h₃ hne).lay (statements_lays u body h₃ hne) h₃ d₃).bind ?_
    rintro _ l₄ ⟨h₄, d₄⟩
    refine (closeScope_loops h₄.complete (d₄.loops_of_blank hzero hblank.literals) signature
      true).bind ?_
    rintro code l₅ hcode _ _ ⟨⟩
    exact ⟨rfl, hcode⟩
  split
  · rename_i hempty
    rw [if_pos hempty] at hrest
    refine ((emitOp_safe .pushNil h₂ rfl rfl trivial (by simp) nofun rfl).runs.and
      (emit_lays h₂.splits .pushNil [] rfl nofun)).bind ?_
    rintro _ l₃ ⟨h₃, d₃⟩
    exact hrest l₃ h₃ d₃
  · rename_i hempty
    rw [if_neg hempty] at hrest
    exact hrest l₂ h₂ (.of_eq rfl rfl)
termination_by (sizeOf body, 1)

theorem statements_lays (u : Subject) (es : List Expr) {l : Lowering} {o : Outline}
    {scopes : List Scope} {env : List Outline}
    (h : l.Ready o scopes env ∅ ∅ (if es.isEmpty then 1 else 0) ∅) (hne : env ≠ []) :
    (statements u scopes es).Runs l fun _ l' => l.draft.Lays l'.draft ∅ := by
  have hd : l.draft.Lays l.draft ∅ := .of_eq rfl rfl
  match es with
  | [] =>
    rw [statements]
    exact emit_lays h.splits .returnLocal [] rfl nofun
  | e :: rest =>
    rw [statements]
    by_cases hleave : e.isLeave
    · refine (expression_lays u scopes e h).bind fun _ _ d₁ => ?_
      rw [if_pos hleave]
      exact .pure d₁
    · refine (expression_lays u scopes e).bind h hd fun _ h₁ d₁ => ?_
      rw [if_neg hleave]
      dsimp only
      split
      · rename_i hmore
        refine ((emitOp_safe .drop h₁ rfl rfl trivial (by simp) nofun rfl).lay
          (emit_lays h₁.splits .drop [] rfl nofun) h₁ d₁).bind fun _ _ ⟨h₂, d₂⟩ =>
            (statements_lays (o := o) u rest ?_ hne).mono fun _ _ d₃ => d₂.trans' h₂.splits d₃
        rwa [if_neg (by simpa using hmore)]
      · rename_i hlast
        refine (statements_lays (o := o) u rest ?_ hne).mono fun _ _ d₂ => d₁.trans' h₁.splits d₂
        rwa [if_pos (by simpa using hlast)]
termination_by (sizeOf es, 0)

end

/-- A loop over integers that is written out has as its body the code of the block, put in place,
    and puts the index into the slot in which the instructions of the body find their parameter. -/
theorem count_hands (u : Subject) (scopes : List Scope) (start limit : Expr) (parameter : String)
    (locals : List String) (body : List Expr) (h : l.Ready o scopes env O K n ∅) :
    (control u scopes (.count start limit parameter locals body)).Runs l fun _ l' =>
      ∃ l₁ code l₂, block u scopes [parameter] locals body l₁ = .ok code l₂ ∧
        l'.draft.Hands code.program :=
  (count_lays (expression_lays u scopes start) (expression_lays u scopes limit)
    (block_lays u scopes [parameter] locals body) h).mono fun _ _ h => h.2

theorem methodStatements_lays (u : Subject) (es : List Expr) (h : l.Ready o scopes [] ∅ ∅ 0 ∅) :
    (methodStatements u scopes es).Runs l fun _ l' => l.draft.Lays l'.draft ∅ := by
  induction es generalizing l with
  | nil =>
    rw [methodStatements]
    exact emit_lays h.splits .returnSelf [] rfl (by simp)
  | cons e rest ih =>
    rw [methodStatements]
    by_cases hleave : e.isLeave
    · refine (expression_lays u scopes e h).bind fun _ _ d₁ => ?_
      rw [if_pos hleave]
      exact .pure d₁
    · refine (expression_lays u scopes e).bind h (.of_eq rfl rfl) fun l₁ h₁ d₁ => ?_
      rw [if_neg hleave]
      refine ((emitOp_safe .drop h₁ rfl rfl trivial (by simp) (by simp) rfl).lay
        (emit_lays h₁.splits .drop [] rfl (by simp)) h₁ d₁).bind ?_
      rintro _ l₂ ⟨h₂, d₂⟩
      exact (ih h₂).mono fun _ _ d₃ => d₂.trans' h₂.splits d₃

theorem method_loops (u : Subject) (m : MethodTree) (l : Lowering) :
    (method u m).Runs l fun code _ => code.Loops := by
  unfold method
  extract_lets rest
  split
  · exact nofun
  · refine ((openScope_safe ⟨.nil, Nat.zero_le _⟩ "self" m.parameters m.locals).runs.and
      (openScope_blank [] "self" m.parameters m.locals).runs).bind ?_
    rintro scopes l₁ ⟨h₁, -, -, hblank⟩
    have hzero : l₁.draft.position = 0 := by
      rw [Draft.position, hblank.tape]
      rfl
    refine ((methodStatements_safe u m.body h₁).runs.and
      (methodStatements_lays u m.body h₁)).bind ?_
    rintro _ l₂ ⟨⟨_, h₂⟩, d₂⟩
    exact closeScope_loops h₂.complete (d₂.loops_of_blank hzero hblank.literals) m.selector false

end Lower

/-- In the codes of a method, every comparison is that of a loop over integers. -/
theorem lower_loops {m : MethodTree} {holder : ClassRef} {fields : List String} {inlining : Bool}
    {supply : Supply} {code : Code}
    (h : (m.lower holder fields inlining supply).result = .ok code) :
    code.Loops := by
  rw [MethodTree.lower] at h
  dsimp only [EStateM.run] at h
  split at h
  · rename_i c l hr
    cases h
    exact Lower.method_loops _ m _ code l hr
  · cases h

end Parley
