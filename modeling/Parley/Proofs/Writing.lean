import Parley.Proofs.Labels

/-!
# Writing on labelled programs

Labels stay when a program is written on or when a forward jump in it gets its target. Each of
the two is described by what it does to the parts of the program, and an instruction that is
there already is carried along (`Program.Suits.transfer`): nothing that it refers to goes away.

* `Program.WrittenOn.labelled`: one more instruction, behind the others;
* `Program.Retargeted.labelled`: an open jump that is pointed to the end.
-/

namespace Parley

variable {p p' : Program Code} {env env' : List Outline} {closed closed' : Bool}
  {O O' K : Set (Nat × Nat)} {D : Nat → Nat} {ip n n' : Nat} {op : Opcode} {first second : UInt8}

/-! ### Instructions that stay -/

/-- The distance that the operands of a jump say. -/
def jumpDistance (wide : Bool) (first second : UInt8) : Nat :=
  if wide then first.toNat + 256 * second.toNat else first.toNat

theorem Tape.Reads.distance {t : Tape} {j : Jump} {wide : Bool}
    (h : t.Reads ip (.jump j wide) first second) :
    t.distance ip wide = jumpDistance wide first second := by
  rw [Tape.distance, h.first (by simp [Opcode.size]), h.second (by simp [Opcode.size])]
  rfl

/-- The effect of a jump that is not taken. -/
def Jump.effect : Jump → Nat × Nat
  | .always | .back => (0, 0)
  | .test _ _ => (1, 0)
  | .greater => (2, 2)

theorem Tape.effect_jump (t : Tape) (pool : Array (Literal Code)) (ip : Nat) (j : Jump)
    (wide : Bool) : t.effect pool ip (.jump j wide) = .ok j.effect := by
  cases j <;> rfl

/-- The literals of two pools that make no difference to an instruction. -/
inductive Literal.Like : Literal Code → Literal Code → Prop
  | same (l : Literal Code) : Like l l
  | blocks (b c : Code) : Like (.block b) (.block c)

theorem Tape.effect_congr {t t' : Tape} {pool pool' : Array (Literal Code)} {ip' : Nat}
    {r : Nat × Nat} (hr : t.Reads ip op first second) (hr' : t'.Reads ip' op first second)
    (hpool : op.hasLiteral → ∀ l, pool[first.toNat]? = some l →
      ∃ l', pool'[first.toNat]? = some l' ∧ l.Like l')
    (h : t.effect pool ip op = .ok r) : t'.effect pool' ip' op = .ok r := by
  cases op with
  | send toSuper =>
    rw [effect, hr.first (by simp [Opcode.size])] at h
    rw [effect, hr'.first (by simp [Opcode.size])]
    split at h
    · rename_i s hs
      obtain ⟨l', hl', hlike⟩ := hpool rfl _ hs
      cases hlike
      rw [hl']
      exact h
    · cases h
  | quickened _ => cases h
  | jump j _ => cases j <;> exact h
  | _ => exact h

/-- An instruction suits other labels, too, if what it refers to is there as well. -/
theorem Program.Suits.transfer (h : p.Suits env closed O D ip op first second)
    (hr : p.tape.Reads ip op first second) (hr' : p'.tape.Reads ip op first second)
    (haddr : op.Addresses (p'.outline :: env') first second)
    (hpool : op.hasLiteral → ∀ l, p.literals[first.toNat]? = some l →
      ∃ l', p'.literals[first.toNat]? = some l' ∧ l.Like l')
    (hreach : ∀ i, p.Reaches closed i → p'.Reaches closed' i)
    (hO : ∀ n, (ip, n) ∈ O → (ip, n) ∈ O')
    (hreturns : op = .returnLocal → env' = [] ∨ closed' = true ∧ ip + 1 = p'.tape.size ∧ D ip = 1) :
    p'.Suits env' closed' O' D ip op first second where
  plain := h.plain
  addresses := haddr
  literal hop := by
    obtain ⟨l, hl, hs⟩ := h.literal hop
    obtain ⟨l', hl', hlike⟩ := hpool hop l hl
    cases hlike with
    | same => exact ⟨l, hl', hs⟩
    | blocks b c =>
      refine ⟨_, hl', ?_⟩
      cases op <;> exact hs
  effect := by
    obtain ⟨pops, pushes, he, hpops, hfalls⟩ := h.effect
    exact ⟨pops, pushes, Tape.effect_congr hr hr' hpool he, hpops,
      fun hf => ⟨hreach _ (hfalls hf).1, (hfalls hf).2⟩⟩
  jump j wide hop := by
    subst hop
    rcases h.jump j wide rfl with ⟨hj, ho⟩ | ⟨target, ht, hreach', hD⟩
    · exact .inl ⟨hj, hO _ ho⟩
    · refine .inr ⟨target, ?_, hreach _ hreach', hD⟩
      rw [Tape.jumpTarget?, hr.distance] at ht
      rw [Tape.jumpTarget?, hr'.distance, ht]
  returns := hreturns

/-- Labels matter at the offsets that execution may come to. -/
theorem Program.Suits.congr {D' : Nat → Nat} (h : p.Suits env closed O D ip op first second)
    (hip : p.Reaches closed ip) (hD : ∀ i, p.Reaches closed i → D' i = D i) :
    p.Suits env closed O D' ip op first second where
  plain := h.plain
  addresses := h.addresses
  literal := h.literal
  effect := by
    obtain ⟨pops, pushes, he, hpops, hfalls⟩ := h.effect
    refine ⟨pops, pushes, he, hD ip hip ▸ hpops, fun hf => ?_⟩
    obtain ⟨hreach, hnext⟩ := hfalls hf
    rw [hD ip hip, hD _ hreach]
    exact ⟨hreach, hnext⟩
  jump j wide hop := by
    rw [hD ip hip]
    rcases h.jump j wide hop with ho | ⟨target, ht, hreach, hnext⟩
    · exact .inl ho
    · exact .inr ⟨target, ht, hreach, by rw [hD _ hreach, hnext]⟩
  returns hop := by
    rw [hD ip hip]
    exact h.returns hop

theorem Program.Labelled.congr {D' : Nat → Nat} (h : p.Labelled env closed O D)
    (hzero : p.Reaches closed 0) (hD : ∀ i, p.Reaches closed i → D' i = D i) :
    p.Labelled env closed O D' :=
  { h with
    start := (hD 0 hzero).trans h.start
    suits := fun ip hip op first second hr =>
      (h.suits ip hip op first second hr).congr (.inl hip) hD
    opened := fun x hx => by
      obtain ⟨hmem, j, first, second, hj, hr, hn⟩ := h.opened x hx
      exact ⟨hmem, j, first, second, hj, hr, by rw [hD _ (.inl hmem), hn]⟩ }

/-! ### Writing on -/

/-- The jump back that an instruction is, with the head of its loop, if it is one. -/
def Opcode.back? (ip : Nat) (op : Opcode) (first second : UInt8) : Option (Nat × Nat) :=
  match op with
  | .jump .back wide => some (ip, ip - jumpDistance wide first second)
  | _ => none

theorem Tape.Reads.back? {t : Tape} (h : t.Reads ip op first second) :
    t.back? ip = op.back? ip first second := by
  unfold Tape.back?
  rw [h.opcode]
  cases op with
  | jump j wide =>
    cases j with
    | back => simp only [h.distance, Opcode.back?]
    | _ => rfl
  | _ => rfl

theorem Tape.backs_congr {t t' : Tape} (hstarts : t'.starts = t.starts)
    (h : ∀ ip ∈ t.starts, t'.back? ip = t.back? ip) : t'.backs = t.backs := by
  rw [backs, backs, hstarts]
  exact List.filterMap_congr h

theorem Tape.Splits.backs_append {t : Tape} (ht : t.Splits) {operands : List UInt8}
    (hn : operands.length + 1 = op.size) : (t ++ written op operands).backs =
      t.backs ++ (op.back? t.size (operands.getD 0 0) (operands.getD 1 0)).toList := by
  rw [backs, ht.starts_append hn, List.filterMap_append, backs]
  congr 1
  · refine List.filterMap_congr fun ip hip => ?_
    obtain ⟨op', first, second, hr⟩ := ht.reads hip
    rw [(hr.append _).back?, hr.back?]
  · rw [List.filterMap_cons, (reads_written t hn).back?]
    split <;> simp_all

/-- A program that is another one with an instruction written behind it. -/
structure Program.WrittenOn (p p' : Program Code) (op : Opcode) (operands : List UInt8) : Prop where
  length : operands.length + 1 = op.size
  tape : p'.tape = p.tape ++ Tape.written op operands
  arguments : p'.arguments = p.arguments
  locals : p'.locals = p.locals
  literals : ∀ (i : Nat) l, p.literals[i]? = some l → p'.literals[i]? = some l
  pushed : ∀ (i : Nat) c, p'.literals[i]? = some (.block c) → p.literals[i]? = some (.block c) ∨
    ∃ withContext, op = .pushBlock withContext ∧ (operands.getD 0 0).toNat = i
  numbered : p'.literals.size ≤ 256
  loops : p'.loops.map (fun mark => (mark.jump, mark.head)) =
    p.loops.map (fun mark => (mark.jump, mark.head)) ++
      (op.back? p.tape.size (operands.getD 0 0) (operands.getD 1 0)).toList

namespace Program.WrittenOn

variable {operands : List UInt8}

theorem outline (hw : p.WrittenOn p' op operands) : p'.outline = p.outline := by
  rw [Program.outline, Program.outline, hw.arguments, hw.locals]

theorem size (hw : p.WrittenOn p' op operands) : p'.tape.size = p.tape.size + op.size := by
  rw [hw.tape, Tape.size_written hw.length]

theorem reads (hw : p.WrittenOn p' op operands) :
    p'.tape.Reads p.tape.size op (operands.getD 0 0) (operands.getD 1 0) :=
  hw.tape ▸ Tape.reads_written p.tape hw.length

theorem starts (hw : p.WrittenOn p' op operands) (hsplits : p.tape.Splits) :
    p'.tape.starts = p.tape.starts ++ [p.tape.size] :=
  hw.tape ▸ hsplits.starts_append hw.length

theorem reads_old (hw : p.WrittenOn p' op operands) {op' : Opcode}
    (hr : p.tape.Reads ip op' first second) : p'.tape.Reads ip op' first second :=
  hw.tape ▸ hr.append _

/-- What was reached before the instruction was written, be it the end, is an instruction now. -/
theorem mem_starts (hw : p.WrittenOn p' op operands) (hsplits : p.tape.Splits)
    (h : p.Reaches false ip) : ip ∈ p'.tape.starts := by
  rw [hw.tape]
  exact hsplits.mem_starts_append hw.length (h.imp_right (·.2))

/-- A labelled program that is written on by an instruction that suits the labels. -/
theorem labelled (hw : p.WrittenOn p' op operands) (h : p.Labelled env false O D)
    (hO : O ⊆ O') (hopened : ∀ x ∈ O', x ∈ O ∨ x.1 = p.tape.size ∧
      ∃ j, j ≠ .back ∧ op = .jump j false ∧ x.2 = j.landing (D x.1))
    (hs : p'.Suits env closed O' D p.tape.size op (operands.getD 0 0) (operands.getD 1 0)) :
    p'.Labelled env closed O' D where
  splits := hw.tape ▸ h.splits.append hw.length
  start := h.start
  suits ip hip op' first second hr := by
    rw [hw.starts h.splits, List.mem_append, List.mem_singleton] at hip
    rcases hip with hip | rfl
    · obtain ⟨op'', first', second', hr'⟩ := h.splits.reads hip
      obtain ⟨rfl, rfl, rfl⟩ := (hw.reads_old hr').unique hr
      have hold := h.suits ip hip _ _ _ hr'
      refine hold.transfer hr' hr (hw.outline ▸ hold.addresses)
        (fun _ l hl => ⟨l, hw.literals _ l hl, .same l⟩)
          (fun i hi => .inl (hw.mem_starts h.splits hi))
        (fun n hn => hO hn) fun hop => ?_
      rcases hold.returns hop with hend | ⟨hclosed, -⟩
      · exact .inl hend
      · cases hclosed
    · obtain ⟨rfl, rfl, rfl⟩ := hw.reads.unique hr
      exact hs
  opened x hx := by
    rcases hopened x hx with hx | ⟨hip, j, hj, rfl, hn⟩
    · obtain ⟨hmem, j, first, second, hj, hr, hn⟩ := h.opened x hx
      exact ⟨hw.mem_starts h.splits (.inl hmem), j, first, second, hj, hw.reads_old hr, hn⟩
    · rw [hip]
      exact ⟨hw.mem_starts h.splits (.inr ⟨rfl, rfl⟩), j, _, _, hj, hw.reads, hip ▸ hn⟩
  pushed i c hc := by
    rcases hw.pushed i c hc with hc | ⟨withContext, rfl, hi⟩
    · obtain ⟨ip, hip, withContext, first, second, hr, hi⟩ := h.pushed i c hc
      exact ⟨ip, hw.mem_starts h.splits (.inl hip), withContext, first, second, hw.reads_old hr, hi⟩
    · exact ⟨p.tape.size, hw.mem_starts h.splits (.inr ⟨rfl, rfl⟩), withContext, _, _, hw.reads, hi⟩
  numbered := hw.numbered
  loops := by rw [hw.loops, h.loops, hw.tape, h.splits.backs_append hw.length]
  slots := hw.locals ▸ h.slots

/-- What is pushed by the program that was written on fits in, if the new instruction does. -/
theorem encloses (hw : p.WrittenOn p' op operands) (hsplits : p.tape.Splits)
    (hlabelled : p.Labelled env false O D) (h : p.Encloses env)
    (hnew : ∀ withContext b, op = .pushBlock withContext →
      p'.literals[(operands.getD 0 0).toNat]? = some (.block b) →
      b.program.needsContext = withContext ∧ b.Lexical (p.outline :: env)) :
    p'.Encloses env := by
  intro ip hip withContext first second b hr hl
  rw [hw.outline]
  rw [hw.starts hsplits, List.mem_append, List.mem_singleton] at hip
  rcases hip with hip | rfl
  · obtain ⟨op', first', second', hr'⟩ := hsplits.reads hip
    obtain ⟨rfl, rfl, rfl⟩ := (hw.reads_old hr').unique hr
    -- The literal was there before the instruction was written.
    obtain ⟨l, hl', -⟩ := (hlabelled.suits ip hip _ _ _ hr').literal rfl
    rw [hw.literals _ l hl'] at hl
    cases hl
    exact h ip hip withContext _ _ b hr' hl'
  · obtain ⟨rfl, rfl, rfl⟩ := hw.reads.unique hr
    exact hnew withContext b rfl hl

end Program.WrittenOn

/-! ### Writing over -/

/-- A program in which a forward jump has got a target. -/
structure Program.Retargeted (p p' : Program Code) (ip : Nat) (j : Jump) (wide : Bool)
    (first second : UInt8) : Prop where
  mem : ip ∈ p.tape.starts
  old : ∃ first second, p.tape.Reads ip (.jump j false) first second
  forward : j ≠ .back
  new : p'.tape.Reads ip (.jump j wide) first second
  differs : p.tape.DiffersAt p'.tape ip (.jump j false)
  literals : p'.literals = p.literals
  arguments : p'.arguments = p.arguments
  locals : p'.locals = p.locals
  loops : p'.loops = p.loops

namespace Program.Retargeted

variable {j : Jump} {wide : Bool} (ht : p.Retargeted p' ip j wide first second)

include ht

theorem outline : p'.outline = p.outline := by
  rw [Program.outline, Program.outline, ht.arguments, ht.locals]

theorem starts (hsplits : p.tape.Splits) : p'.tape.starts = p.tape.starts := by
  obtain ⟨_, _, hold⟩ := ht.old
  exact ht.differs.starts hold.opcode ht.mem hsplits ht.new.opcode rfl

theorem reads {i : Nat} {op : Opcode} {first' second' : UInt8} (hi : i ∈ p.tape.starts)
    (hne : i ≠ ip) (hr : p.tape.Reads i op first' second') : p'.tape.Reads i op first' second' := by
  obtain ⟨_, _, hold⟩ := ht.old
  exact ht.differs.reads hold.opcode ht.mem hi hne hr

/-- An instruction is the jump, or was there before. -/
theorem reads_cases (hsplits : p.tape.Splits) {i : Nat} {op : Opcode} {first' second' : UInt8}
    (hi : i ∈ p.tape.starts) (hr : p'.tape.Reads i op first' second') :
    (i = ip ∧ op = .jump j wide ∧ first' = first ∧ second' = second) ∨
      i ≠ ip ∧ p.tape.Reads i op first' second' := by
  by_cases hne : i = ip
  · subst hne
    exact .inl ⟨rfl, ht.new.unique hr⟩
  · obtain ⟨op', first'', second'', hold⟩ := hsplits.reads hi
    obtain ⟨rfl, rfl, rfl⟩ := (ht.reads hi hne hold).unique hr
    exact .inr ⟨hne, hold⟩

theorem reaches (hsplits : p.tape.Splits) {i : Nat} (h : p.Reaches closed i) :
    p'.Reaches closed i := by
  rw [Program.Reaches, ht.starts hsplits, ht.differs.size]
  exact h

theorem backs (hsplits : p.tape.Splits) : p'.tape.backs = p.tape.backs := by
  refine Tape.backs_congr (ht.starts hsplits) fun i hi => ?_
  obtain ⟨op, first', second', hr⟩ := hsplits.reads hi
  by_cases hne : i = ip
  · obtain ⟨_, _, hold⟩ := ht.old
    rw [hne, ht.new.back?, hold.back?]
    have := ht.forward
    cases j <;> first | rfl | contradiction
  · rw [(ht.reads hi hne hr).back?, hr.back?]

/-- The labels stay when an open jump is pointed to the end, if the depth there is right. -/
theorem labelled {m n : Nat} (h : p.Labelled env false (insert (ip, n) O) D)
    (hO : ∀ x ∈ O, x.1 ≠ ip)
    (hdistance : 0 < jumpDistance wide first second ∧
      ip + jumpDistance wide first second = p.tape.size)
    (hend : D p.tape.size = m) (hlanding : m = j.landing (D ip)) :
    p'.Labelled env false O D where
  splits i hi := by
    rw [ht.starts h.splits] at hi
    obtain ⟨op, first', second', hr⟩ := h.splits.reads hi
    by_cases hne : i = ip
    · exact hne ▸ ⟨_, ht.new.opcode, ht.new.fits⟩
    · have hr' := ht.reads hi hne hr
      exact ⟨op, hr'.opcode, hr'.fits⟩
  start := h.start
  suits i hi op first' second' hr := by
    rw [ht.starts h.splits] at hi
    rcases ht.reads_cases h.splits hi hr with ⟨rfl, rfl, rfl, rfl⟩ | ⟨hne, hold⟩
    · obtain ⟨_, _, hold⟩ := ht.old
      obtain ⟨pops, pushes, he, hpops, hfalls⟩ := (h.suits i hi _ _ _ hold).effect
      refine ⟨rfl, trivial, nofun, ⟨pops, pushes, ?_, hpops, fun hf => ?_⟩, fun k w hk => ?_, nofun⟩
      · rw [Tape.effect_jump] at he ⊢
        exact he
      · have hf' : Tape.fallsThrough (.jump j false) := by cases j <;> exact hf
        exact ⟨ht.reaches h.splits (hfalls hf').1, (hfalls hf').2⟩
      · cases hk
        refine .inr ⟨p.tape.size, ?_, .inr ⟨rfl, ht.differs.size.symm⟩, hend.trans hlanding⟩
        rw [Tape.jumpTarget?, hr.distance, if_neg ht.forward, if_pos hdistance.1, hdistance.2]
    · have hs := h.suits i hi op _ _ hold
      refine hs.transfer hold hr (ht.outline ▸ hs.addresses)
        (fun _ l hl => ⟨l, ht.literals ▸ hl, .same l⟩) (fun _ => ht.reaches h.splits) ?_
        fun hop => (hs.returns hop).imp_right fun hend => absurd hend.1 (by simp)
      rintro m (hm | hm)
      · cases hm
        exact absurd rfl hne
      · exact hm
  opened x hx := by
    obtain ⟨hmem, k, first', second', hk, hold, hx'⟩ := h.opened x (.inr hx)
    exact ⟨ht.starts h.splits ▸ hmem, k, _, _, hk, ht.reads hmem (hO x hx) hold, hx'⟩
  pushed i c hc := by
    obtain ⟨i', hi', w, first', second', hold, hfirst⟩ := h.pushed i c (ht.literals ▸ hc)
    have hne : i' ≠ ip := by
      obtain ⟨_, _, hjump⟩ := ht.old
      rintro rfl
      cases hold.opcode.symm.trans hjump.opcode
    exact ⟨i', ht.starts h.splits ▸ hi', w, _, _, ht.reads hi' hne hold, hfirst⟩
  numbered := ht.literals ▸ h.numbered
  loops := by rw [ht.loops, h.loops, ht.backs h.splits]
  slots := ht.locals ▸ h.slots

theorem encloses (hsplits : p.tape.Splits) (h : p.Encloses env) : p'.Encloses env := by
  intro i hi w first' second' b hr hl
  rw [ht.starts hsplits] at hi
  rw [ht.outline]
  rcases ht.reads_cases hsplits hi hr with ⟨-, hop, -⟩ | ⟨-, hold⟩
  · cases hop
  · exact h i hi w _ _ b hold (ht.literals ▸ hl)

end Program.Retargeted

/-! ### Single instructions -/

/-- The effect of an instruction that has no literal and does not jump. -/
def Opcode.effect? : Opcode → Option (Nat × Nat)
  | .halt | .returnSelf => some (0, 0)
  | .dup => some (1, 2)
  | .dupSecond => some (2, 3)
  | .push _ | .pushSelf | .pushNil | .pushZero | .pushOne => some (0, 1)
  | .drop | .pop _ | .returnLocal | .returnNonLocal => some (1, 0)
  | .step _ => some (1, 1)
  | _ => none

variable {pops pushes : Nat}

theorem Tape.effect_of_effect? {t : Tape} {pool : Array (Literal Code)}
    (h : op.effect? = some (pops, pushes)) : t.effect pool ip op = .ok (pops, pushes) := by
  cases op <;> simp only [Opcode.effect?, Option.some.injEq, reduceCtorEq] at h <;>
    exact congrArg _ h

theorem Program.Suits.of_effect? (he : op.effect? = some (pops, pushes))
    (haddr : op.Addresses (p.outline :: env) first second) (hpops : pops ≤ D ip)
    (hfalls : Tape.fallsThrough op → p.Reaches closed (ip + op.size) ∧
      D (ip + op.size) = D ip - pops + pushes)
    (hreturns : op = .returnLocal → env = [] ∨ closed = true ∧ ip + 1 = p.tape.size ∧ D ip = 1) :
    p.Suits env closed O D ip op first second where
  plain := by cases op <;> first | rfl | cases he
  addresses := haddr
  literal hop := by
    have hnone : op.hasLiteral = false := by cases op <;> first | rfl | cases he
    rw [hnone] at hop
    cases hop
  effect := ⟨pops, pushes, Tape.effect_of_effect? he, hpops, hfalls⟩
  jump j wide hop := by
    subst hop
    cases he
  returns := hreturns

/-- The effect of an instruction with a literal. -/
def Opcode.literalEffect (op : Opcode) (l : Literal Code) : Nat × Nat :=
  match op, l with
  | .send _, .selector s => (s.arity + 1, 1)
  | _, _ => (0, 1)

theorem Tape.effect_of_literal {t : Tape} {pool : Array (Literal Code)} {l : Literal Code}
    (hr : t.Reads ip op first second) (hl : pool[first.toNat]? = some l)
    (hs : suits op l) : t.effect pool ip op = .ok (op.literalEffect l) := by
  cases op with
  | send toSuper =>
    rw [effect, hr.first (by simp [Opcode.size]), hl]
    cases l with
    | selector s => rfl
    | _ => cases hs
  | pushBlock _ | pushConstant | pushGlobal => rfl
  | _ => cases hs

/-- Literals that share a place in a pool suit the same instructions, with the same effect. -/
theorem Literal.sameAs_suits {l m : Literal Code} (hsame : m.sameAs l) (hl : Tape.suits op l)
    (he : op.literalEffect l = (pops, pushes)) :
    Tape.suits op m ∧ op.literalEffect m = (pops, pushes) := by
  cases m <;> cases l <;> simp only [sameAs, Bool.false_eq_true] at hsame
  · cases op <;> exact ⟨hl, he⟩
  · rw [of_decide_eq_true hsame]
    exact ⟨hl, he⟩
  · rw [of_decide_eq_true hsame]
    exact ⟨hl, he⟩
  · cases op <;> exact ⟨hl, he⟩

end Parley
