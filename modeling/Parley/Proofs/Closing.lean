import Parley.Proofs.Laying

/-!
# The closures that a code makes

An instruction that makes a closure does so of a block of the pool. These instructions, those in the
blocks that they refer to, and so on, form a tree for each program (`Program.closures`). What the
compiler does to a program leaves its trees as they are, or adds trees behind them:

* `Code.Relocated.tree`: rehoming a closure keeps its tree;
* `Draft.Stands.emitLiteral_closures`, `Draft.Stands.emitBlock_closures`: writing an instruction
  adds a tree if it makes a closure;
* `Draft.Stands.splice_closures`: splicing a block adds the trees of the block, without the block.
-/

namespace Parley

variable {p p' : Program Code} {m : SlotMap} {removed : UInt8} {ip : Nat} {op : Opcode}
  {first second : UInt8} {operands : List UInt8}

/-- A block with the blocks inside it: its signature, the number of its parameters, and what is
    inside in the order in which it is written. -/
inductive BlockTree where
  | node (signature : Selector) (parameters : Nat) (inner : List BlockTree)

/-- The code of a block. -/
def Literal.code? : Literal Code → Option Code
  | .block c => some c
  | _ => none

namespace Program

/-- The block at an index of the pool. -/
def blockAt? (p : Program Code) (i : Nat) : Option Code :=
  p.literals[i]?.bind Literal.code?

/-- The block that the instruction at an offset makes a closure of. -/
def pushedAt? (p : Program Code) (ip : Nat) : Option Code :=
  match p.tape.opcode? ip with
  | some (.pushBlock _) => p.blockAt? (p.tape.byteAt (ip + 1)).toNat
  | _ => none

/-- The blocks that the instructions make closures of, one after another. -/
def pushed (p : Program Code) : List Code :=
  p.tape.starts.filterMap p.pushedAt?

theorem blockAt?_eq_some {i : Nat} {c : Code} :
    p.blockAt? i = some c ↔ p.literals[i]? = some (.block c) := by
  rw [blockAt?, Option.bind_eq_some_iff]
  constructor
  · rintro ⟨l, hl, hc⟩
    cases l with
    | block b =>
      cases hc
      exact hl
    | _ => cases hc
  · exact fun h => ⟨_, h, rfl⟩

theorem pushedAt?_of_pushBlock {withContext : Bool}
    (hr : p.tape.Reads ip (.pushBlock withContext) first second) :
    p.pushedAt? ip = p.blockAt? first.toNat := by
  rw [pushedAt?, hr.opcode, hr.first (by simp [Opcode.size])]

theorem pushedAt?_of_ne (ho : p.tape.opcode? ip = some op) (hne : ∀ w, op ≠ .pushBlock w) :
    p.pushedAt? ip = none := by
  rw [pushedAt?, ho]
  cases op with
  | pushBlock w => exact absurd rfl (hne w)
  | _ => rfl

theorem exists_of_pushedAt? {c : Code} (h : p.pushedAt? ip = some c) :
    ∃ withContext, p.tape.opcode? ip = some (.pushBlock withContext) ∧
      p.blockAt? (p.tape.byteAt (ip + 1)).toNat = some c := by
  unfold pushedAt? at h
  split at h
  · rename_i w hop
    exact ⟨w, hop, h⟩
  · cases h

theorem mem_literals_of_mem_pushed {c : Code} (h : c ∈ p.pushed) : .block c ∈ p.literals := by
  obtain ⟨ip, -, hc⟩ := List.mem_filterMap.1 h
  obtain ⟨-, -, hc⟩ := exists_of_pushedAt? hc
  exact Array.mem_of_getElem? (blockAt?_eq_some.1 hc)

/-- An instruction that is the same makes a closure of the same block. -/
theorem pushedAt?_congr {ip' : Nat} (hr : p.tape.Reads ip op first second)
    (hr' : p'.tape.Reads ip' op first second)
    (hl : ∀ w, op = .pushBlock w → p'.blockAt? first.toNat = p.blockAt? first.toNat) :
    p'.pushedAt? ip' = p.pushedAt? ip := by
  by_cases hop : ∃ w, op = .pushBlock w
  · obtain ⟨w, rfl⟩ := hop
    rw [pushedAt?_of_pushBlock hr, pushedAt?_of_pushBlock hr', hl w rfl]
  · rw [pushedAt?_of_ne hr.opcode fun w h => hop ⟨w, h⟩,
      pushedAt?_of_ne hr'.opcode fun w h => hop ⟨w, h⟩]

end Program

/-- A code with the blocks that it makes closures of, and in turn with theirs. -/
def Code.tree (c : Code) : BlockTree :=
  .node c.signature (c.argumentCount - 1) (c.program.pushed.attach.map fun b => tree b.1)
termination_by c
decreasing_by
  exact Code.sizeOf_lt_of_mem_blocks (Code.mem_blocks.2 (Program.mem_literals_of_mem_pushed b.2))

/-- The blocks that a program makes closures of, with those inside them. -/
def Program.closures (p : Program Code) : List BlockTree :=
  p.pushed.map Code.tree

theorem Code.tree_eq (c : Code) :
    c.tree = .node c.signature (c.argumentCount - 1) c.program.closures := by
  rw [tree, Program.closures, List.attach_map_val]

namespace Program

theorem closures_eq (p : Program Code) :
    p.closures = p.tape.starts.filterMap fun ip => (p.pushedAt? ip).map Code.tree :=
  List.map_filterMap

theorem closures_congr (htape : p'.tape = p.tape) (hliterals : p'.literals = p.literals) :
    p'.closures = p.closures := by
  simp only [closures_eq, pushedAt?, blockAt?, htape, hliterals]

/-- Instructions that are as they were in a longer program make the closures that they made. -/
theorem closures_append (hp : p.tape.Splits) {code : Tape} (htape : p'.tape = p.tape ++ code)
    (hsame : ∀ ip ∈ p.tape.starts, p'.pushedAt? ip = p.pushedAt? ip) :
    p'.closures = p.closures ++
      (p'.tape.startsFrom p.tape.size).filterMap fun ip => (p'.pushedAt? ip).map Code.tree := by
  rw [closures_eq, closures_eq, htape, hp.starts_append', List.filterMap_append]
  congr 1
  exact List.filterMap_congr fun ip hip => by rw [hsame ip hip]

/-- So they do if nothing is added but literals. -/
theorem Labelled.pushedAt?_eq {env : List Outline} {closed : Bool} {O : Set (Nat × Nat)}
    {D : Nat → Nat} (h : p.Labelled env closed O D) {code : Tape} (htape : p'.tape = p.tape ++ code)
    (hliterals : ∀ (i : Nat) l, p.literals[i]? = some l → p'.literals[i]? = some l)
    (hip : ip ∈ p.tape.starts) : p'.pushedAt? ip = p.pushedAt? ip := by
  obtain ⟨op, first, second, hr⟩ := h.splits.reads hip
  refine pushedAt?_congr hr (htape ▸ hr.append code) fun w hop => ?_
  obtain ⟨l, hl, -⟩ := (h.suits ip hip _ _ _ hr).literal (by subst hop; rfl)
  rw [blockAt?, blockAt?, hliterals _ l hl, hl]

/-- An instruction that makes a closure has a block. -/
theorem Labelled.exists_pushedAt? {env : List Outline} {closed : Bool} {O : Set (Nat × Nat)}
    {D : Nat → Nat} (h : p.Labelled env closed O D) (hip : ip ∈ p.tape.starts) {withContext : Bool}
    (hop : p.tape.opcode? ip = some (.pushBlock withContext)) : ∃ b, p.pushedAt? ip = some b := by
  obtain ⟨first, second, hr⟩ := h.splits.reads_at hip hop
  obtain ⟨l, hl, hsuits⟩ := (h.suits ip hip _ _ _ hr).literal rfl
  rw [pushedAt?_of_pushBlock hr, blockAt?, hl]
  cases l with
  | block b => exact ⟨b, rfl⟩
  | _ => cases hsuits

/-- Every block of the pool is one that a closure is made of. -/
theorem Labelled.mem_pushed {env : List Outline} {closed : Bool} {O : Set (Nat × Nat)}
    {D : Nat → Nat} (h : p.Labelled env closed O D) {b : Code} (hb : .block b ∈ p.literals) :
    b ∈ p.pushed := by
  obtain ⟨i, hi⟩ := Array.getElem?_of_mem hb
  obtain ⟨ip, hip, w, first, second, hr, rfl⟩ := h.pushed i b hi
  exact List.mem_filterMap.2 ⟨ip, hip, (pushedAt?_of_pushBlock hr).trans (blockAt?_eq_some.2 hi)⟩

end Program

/-! ### Closures that are rehomed -/

theorem Opcode.ne_pushBlock (h : op.hasContextOperand) (withContext : Bool) :
    op ≠ .pushBlock withContext := by
  rintro rfl
  cases h

/-- What becomes of an instruction makes a closure if the instruction does. -/
theorem SlotMap.Rewrites.pushBlock {op' : Opcode} {first' second' : UInt8}
    (h : m.Rewrites removed op first second op' first' second') :
    op' = op ∧ first' = first ∧ second' = second ∨
      (∀ w, op ≠ .pushBlock w) ∧ ∀ w, op' ≠ .pushBlock w := by
  cases h with
  | access h =>
    obtain ⟨hop, hop'⟩ := h.hasContextOperand
    exact .inr ⟨Opcode.ne_pushBlock hop, Opcode.ne_pushBlock hop'⟩
  | leaveInside | leaveOutside => exact .inr ⟨nofun, nofun⟩
  | other => exact .inl ⟨rfl, rfl, rfl⟩

/-- Rehoming a closure keeps its tree. -/
theorem Code.Relocated.tree {c c' : Code} (h : c.Relocated m removed c') : c'.tree = c.tree := by
  induction h with
  | @intro removed c c' hsignature _ _ hrelocated _ ih =>
    have hblocks : ∀ i, (c'.program.blockAt? i).map Code.tree =
        (c.program.blockAt? i).map Code.tree := by
      intro i
      by_cases hcloses : ∃ ip ∈ c.program.tape.starts, c.program.ClosesAt ip i
      · obtain ⟨ip, hip, hcloses⟩ := hcloses
        obtain ⟨b, b', hb, hb'⟩ := hrelocated.closures ip hip i hcloses
        rw [Program.blockAt?_eq_some.2 hb, Program.blockAt?_eq_some.2 hb']
        exact congrArg some (ih ip hip i hcloses b b' hb hb')
      · rw [Program.blockAt?, Program.blockAt?,
          hrelocated.others i fun ip hip h => hcloses ⟨ip, hip, h⟩]
    rw [tree_eq, tree_eq, hsignature, argumentCount, argumentCount, hrelocated.arguments,
      Program.closures_eq, Program.closures_eq, hrelocated.starts]
    congr 1
    refine List.filterMap_congr fun ip hip => ?_
    obtain ⟨op, first, second, op', first', second', hr, hr', hrewrites⟩ :=
      hrelocated.rewrites ip hip
    rcases hrewrites.pushBlock with ⟨rfl, rfl, rfl⟩ | ⟨hne, hne'⟩
    · by_cases hop : ∃ w, op' = .pushBlock w
      · obtain ⟨w, rfl⟩ := hop
        rw [Program.pushedAt?_of_pushBlock hr, Program.pushedAt?_of_pushBlock hr', hblocks]
      · rw [Program.pushedAt?_of_ne hr.opcode fun w h => hop ⟨w, h⟩,
          Program.pushedAt?_of_ne hr'.opcode fun w h => hop ⟨w, h⟩]
    · rw [Program.pushedAt?_of_ne hr.opcode hne, Program.pushedAt?_of_ne hr'.opcode hne']

/-! ### Instructions that are written -/

namespace Draft

variable {d d' : Draft} {env : List Outline} {O K : Set (Nat × Nat)} {n : Nat}

/-- A single instruction is written. -/
theorem closures_of_reads (hd : d.tape.Splits) (htape : ∃ code, d'.tape = d.tape ++ code)
    (hr : d'.tape.Reads d.position op first second) (hposition : d'.position = d.position + op.size)
    (hsame : ∀ ip ∈ d.tape.starts, d'.program.pushedAt? ip = d.program.pushedAt? ip) :
    d'.program.closures =
      d.program.closures ++ ((d'.program.pushedAt? d.position).map Code.tree).toList := by
  obtain ⟨code, hcode⟩ := htape
  have hpos := op.size_pos
  have hsize : d'.tape.size = d.position + op.size := hposition
  have hlast : d'.tape.startsFrom d.position = [d.position] := by
    rw [Tape.startsFrom_of_opcode (by omega) hr.opcode, Tape.startsFrom, dif_neg (by omega)]
  have happend : d'.program.closures = d.program.closures ++
      (d'.tape.startsFrom d.position).filterMap fun ip =>
        (d'.program.pushedAt? ip).map Code.tree :=
    Program.closures_append hd hcode hsame
  rw [happend, hlast]
  cases h : d'.program.pushedAt? d.position <;> simp [h]

theorem emit_closures (hd : d.tape.Splits) (hn : operands.length + 1 = op.size)
    (hne : ∀ w, op ≠ .pushBlock w) : (d.emit op operands).program.closures =
    d.program.closures := by
  have htape := d.emit_tape op operands
  have hr : (d.emit op operands).program.tape.Reads _ _ _ _ := d.emit_reads hn
  have hsame : ∀ ip ∈ d.tape.starts,
      (d.emit op operands).program.pushedAt? ip = d.program.pushedAt? ip := by
    intro ip hip
    obtain ⟨op', first, second, hr'⟩ := hd.reads hip
    have hr'' : (d.emit op operands).tape.Reads ip op' first second := htape ▸ hr'.append _
    exact Program.pushedAt?_congr hr' hr'' fun _ _ => rfl
  rw [closures_of_reads hd ⟨_, htape⟩ hr (d.position_emit hn) hsame,
    Program.pushedAt?_of_ne hr.opcode hne]
  simp

theorem emitBack_closures (hd : d.tape.Splits) {head : Nat} (h : d.emitBack head = .ok d') :
    d'.program.closures = d.program.closures := by
  rw [emitBack] at h
  generalize (if head ≤ d.position then d.position - head
    else Nat.pow 2 64 - (head - d.position)) = distance at h
  have hn : [(distanceBytes distance).1, (distanceBytes distance).2].length + 1 =
      (Opcode.jump .back (255 < distance)).size := rfl
  split at h
  · cases h
    exact emit_closures hd hn nofun
  · cases h

/-- Setting locals to nil makes no closure. -/
theorem clearLocals_closures (hd : d.tape.Splits) (slots : List UInt8) :
    (d.clearLocals slots).program.closures = d.program.closures := by
  rw [clearLocals]
  induction slots generalizing d with
  | nil => rfl
  | cons slot rest ih =>
    let d₁ := d.emit .pushNil []
    let d₂ := d₁.emit (.pop .temporary) [slot, 0]
    have hd₁ : d₁.tape.Splits := splits_emit hd rfl
    have hd₂ : d₂.tape.Splits := splits_emit hd₁ rfl
    have hnil : d₁.program.closures = d.program.closures := emit_closures hd rfl (by simp)
    have hpop : d₂.program.closures = d₁.program.closures := emit_closures hd₁ rfl (by simp)
    exact (ih hd₂).trans (hpop.trans hnil)

namespace Stands

/-- Writing an instruction with a literal adds a tree if it makes a closure. -/
theorem emitLiteral_yields (h : d.Stands env O K n) {l : Literal Code} (hsize : op.size = 2)
    (hd : d.emitLiteral op l = .ok d') : ∃ index l', d'.literals[index.toNat]? = some l' ∧
      (l' = l ∨ l' ∈ d.literals ∧ l'.sameAs l) ∧ d'.tape.Reads d.position op index 0 ∧
        d'.program.closures =
          d.program.closures ++ ((d'.program.pushedAt? d.position).map Code.tree).toList := by
  obtain ⟨hext, hposition, -, index, l', hr, hl', hsame⟩ :=
    emitLiteral_extends h.literals_le hsize hd
  obtain ⟨code, hcode⟩ := hext.append
  obtain ⟨⟨D, hD, -⟩, -⟩ := h
  refine ⟨index, l', hl', hsame, hr, closures_of_reads hD.splits ⟨code, hcode⟩ hr
    (by rw [hposition, hsize]) fun ip hip => hD.pushedAt?_eq hcode hext.literals hip⟩

theorem emitLiteral_closures (h : d.Stands env O K n) {l : Literal Code} (hsize : op.size = 2)
    (hne : ∀ w, op ≠ .pushBlock w) (hd : d.emitLiteral op l = .ok d') :
    d'.program.closures = d.program.closures := by
  obtain ⟨index, l', -, -, hr, hclosures⟩ := h.emitLiteral_yields hsize hd
  rw [hclosures, Program.pushedAt?_of_ne hr.opcode hne]
  simp

/-- A block is pushed whose number no other one in the pool has. -/
theorem emitBlock_closures (h : d.Stands env O K n) {c : Code} {withContext : Bool} {next : Nat}
    (hn : Numbered (parts d.literals ∪ c.parts) next)
    (hd : d.emitLiteral (.pushBlock withContext) (.block c) = .ok d') :
    d'.program.closures = d.program.closures ++ [c.tree] := by
  obtain ⟨index, l', hl', hsame, hr, hclosures⟩ := h.emitLiteral_yields rfl hd
  obtain rfl : l' = .block c := by
    rcases hsame with rfl | ⟨hmem, hsame⟩
    · rfl
    · cases l' with
      | block b =>
        exact congrArg _
          (hn.inj b c (.inl ⟨_, hmem, .self _⟩) (.inr (.self _)) (of_decide_eq_true hsame))
      | _ => cases hsame
  rw [hclosures, Program.pushedAt?_of_pushBlock hr, Program.blockAt?_eq_some.2 hl']
  rfl

/-- An open jump gets its target. -/
theorem patch_closures {x : Nat × Nat} {target : Nat} (h : d.Stands env O K n) (hx : x ∈ O)
    (hlt : x.1 < target) (hd : d.patch x.1 target = .ok d') :
    d'.program.closures = d.program.closures := by
  obtain ⟨⟨D, hD, -⟩, -⟩ := h
  obtain ⟨hmem, j, first, second, -, hr, -⟩ := hD.opened x hx
  have hp := points_of_patch hD.splits hmem hr hlt hd
  have hstarts : d'.program.tape.starts = d.program.tape.starts := hp.starts
  have hliterals : d'.program.literals = d.program.literals := hp.literals
  have hold : d.program.pushedAt? x.1 = none := Program.pushedAt?_of_ne hr.opcode nofun
  have hnew : d'.program.pushedAt? x.1 = none := by
    obtain ⟨wide, _, _, hnew, -⟩ := hp.reads
    have hop : d'.program.tape.opcode? x.1 = some (.jump j wide) := hnew.opcode
    exact Program.pushedAt?_of_ne hop nofun
  rw [Program.closures_eq, Program.closures_eq, hstarts]
  refine List.filterMap_congr fun ip hip => ?_
  by_cases hne : ip = x.1
  · subst hne
    rw [hold, hnew]
  · obtain ⟨op, first, second, hr'⟩ := hD.splits.reads hip
    rw [Program.pushedAt?_congr hr' (hp.others ip hip hne _ _ _ hr') fun _ _ => by
      rw [Program.blockAt?, Program.blockAt?, hliterals]]

end Stands

end Draft

/-! ### Blocks that are spliced -/

/-- Where a block is spliced, an instruction makes a closure with the tree that it had. -/
theorem Program.Carries.tree {f : Nat → Nat} {op' : Opcode} {first' second' : UInt8}
    (h : p.Carries m f p'.literals ip op first second op' first' second')
    (hr : p.tape.Reads ip op first second) {ip' : Nat}
    (hr' : p'.tape.Reads ip' op' first' second') :
    (p'.pushedAt? ip').map Code.tree = (p.pushedAt? ip).map Code.tree := by
  have hnone : (∀ w, op ≠ .pushBlock w) → (∀ w, op' ≠ .pushBlock w) →
      (p'.pushedAt? ip').map Code.tree = (p.pushedAt? ip).map Code.tree := fun hne hne' => by
    rw [Program.pushedAt?_of_ne hr.opcode hne, Program.pushedAt?_of_ne hr'.opcode hne']
  cases h with
  | access h =>
    obtain ⟨hop, hop'⟩ := h.hasContextOperand
    exact hnone (Opcode.ne_pushBlock hop) (Opcode.ne_pushBlock hop')
  | @closure index index' b b' hb hrelocated hb' =>
    rw [pushedAt?_of_pushBlock hr, pushedAt?_of_pushBlock hr', blockAt?_eq_some.2 hb,
      blockAt?_eq_some.2 hb', Option.map_some, Option.map_some, hrelocated.tree]
  | @literal _ index index' l l' hop _ hl hl' hstands =>
    by_cases hpush : ∃ w, op = .pushBlock w
    · obtain ⟨w, rfl⟩ := hpush
      rw [pushedAt?_of_pushBlock hr, pushedAt?_of_pushBlock hr', blockAt?, blockAt?, hl, hl']
      -- Only a block counts as the same as a block, and it stands for itself only.
      rcases hstands with rfl | ⟨hsame, hne⟩
      · rfl
      · cases l with
        | block b => exact absurd rfl (hne b)
        | _ => cases l' <;> first | rfl | cases hsame
    · exact hnone (fun w h => hpush ⟨w, h⟩) fun w h => hpush ⟨w, h⟩
  | leaveHere | leave | forward | back => exact hnone nofun nofun
  | plain hsize =>
    have hne : ∀ w, op ≠ .pushBlock w := fun w => by rintro rfl; cases hsize
    exact hnone hne hne

/-- The instructions of a block make the closures that they made, and those before them theirs. -/
theorem Walk.Follows.closures {w : Walk} {into : Draft} {late : Nat} {env env' : List Outline}
    {closed closed' : Bool} {O O' : Set (Nat × Nat)} {D D' : Nat → Nat}
    (h : w.Follows p m into p.tape.size late) (hf : w.forward = [])
    (hp : p.Labelled env closed O D) (hinto : into.program.Labelled env' closed' O' D') :
    w.draft.program.closures = into.program.closures ++ p.closures := by
  have hzero : p.tape.Place 0 := by
    rcases Nat.eq_zero_or_pos p.tape.size with hzero | hpos
    · exact .inr hzero.symm
    · exact .inl (Tape.mem_startsFrom_self hpos)
  obtain ⟨code, hcode⟩ := h.grows.append
  have hnew := h.startsFrom_eq hf hp.splits hzero
  rw [Program.carriedTo_zero] at hnew
  have happend : w.draft.program.closures = into.program.closures ++
      (w.draft.tape.startsFrom into.position).filterMap fun ip =>
        (w.draft.program.pushedAt? ip).map Code.tree :=
    Program.closures_append hinto.splits hcode fun ip hip =>
      hinto.pushedAt?_eq hcode h.grows.literals hip
  rw [happend, hnew, List.filterMap_map, List.filterMap_filter, p.closures_eq]
  congr 1
  refine List.filterMap_congr fun ip hip => ?_
  obtain ⟨op, first, second, hr⟩ := hp.splits.reads hip
  by_cases hreturn : op = .returnLocal
  · subst hreturn
    rw [if_neg (by simp [hr.opcode]), Program.pushedAt?_of_ne hr.opcode nofun]
    rfl
  · obtain ⟨op', first', second', hr', hcarries, -⟩ :=
      h.settled hf hip (Tape.lt_of_mem_startsFrom hip) hr hreturn
    rw [if_pos (by simp [hr.opcode, hreturn])]
    exact hcarries.tree hr hr'

/-- A block that is spliced brings the closures that it makes, and none is made of itself. -/
theorem Draft.Stands.splice_closures {d d' : Draft} {env : List Outline} {O K : Set (Nat × Nat)}
    {n next next' : Nat} {c : Code} (h : d.Stands env O K n) (hc : c.Lexical (d.outline :: env))
    (hn : Numbered (parts d.literals ∪ c.parts) next) (hs : d.splice c next = .ok (d', next')) :
    d'.program.closures = d.program.closures ++ c.program.closures := by
  obtain ⟨D, hD⟩ := hc.labelled
  obtain ⟨⟨depths, bound⟩, hcheck⟩ := hc.check
  obtain ⟨m, d₁, w, hmerge, hend, rfl, hforward, -⟩ :=
    splice_follows h.literals_le (Tape.checked_of_check hcheck) hn hs
  have htape : d₁.tape = d.tape := mergeBlock_tape hmerge
  have h₂ : (d₁.clearLocals m.locals).Stands env O K n := by
    obtain ⟨h₁, -, -, -, hslots⟩ := (h.mergeBlock c.program).of_ok hmerge
    exact h₁.clearLocals _ hslots
  obtain ⟨D₂, hD₂, -⟩ := h₂.labels
  rw [hend.closures hforward hD hD₂, clearLocals_closures (htape ▸ h.splits)]
  congr 1
  exact Program.closures_congr htape (mergeBlock_literals hmerge)

end Parley
