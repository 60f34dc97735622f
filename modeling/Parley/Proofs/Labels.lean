import Mathlib.Data.List.Forall2
import Parley.Proofs.Numbering
import Parley.Proofs.Passing

/-!
# Labelled programs

What the compiler writes carries its own proof that it will pass the check: every instruction,
also one that is never reached, has a depth (`Program.Labelled`). The labels agree where execution
goes on or jumps to, and operands refer to what is there: the frames that an instruction may
address are the own frame and those around it, described by how many arguments and locals they
have (`Outline`).

A program is labelled while it is being written, too. Until it is closed its next instruction may
still be written, so that execution may run up to its end, and some forward jumps may be open.

* `Program.Labelled.check`: a closed program without open jumps passes the check;
* `Code.Lexical`: a code whose program and blocks, at any depth, are labelled, given the frames
  around it;
* `Code.Lexical.mono`: the frames around a code may get further locals.
-/

namespace Parley

/-! ### Frames in outline -/

/-- How many arguments and locals a frame has. -/
structure Outline where
  arguments : Nat
  locals : Nat

/-- The outline of the frames that a program is executed in. -/
def Program.outline {β : Type} (p : Program β) : Outline :=
  ⟨p.arguments.size, p.locals.size⟩

/-- The same frame, perhaps with further locals. -/
structure Outline.Le (o o' : Outline) : Prop where
  arguments : o'.arguments = o.arguments
  locals : o.locals ≤ o'.locals

theorem Outline.Le.refl (o : Outline) : o.Le o :=
  ⟨rfl, le_rfl⟩

theorem Outline.Le.trans {o o' o'' : Outline} (h : o.Le o') (h' : o'.Le o'') : o.Le o'' :=
  ⟨h'.arguments.trans h.arguments, h.locals.trans h'.locals⟩

/-- Frame by frame the same, perhaps with further locals. -/
def Outlines.Le : List Outline → List Outline → Prop :=
  List.Forall₂ Outline.Le

theorem Outlines.Le.refl : ∀ frames, Outlines.Le frames frames
  | [] => .nil
  | o :: rest => .cons (.refl o) (refl rest)

theorem Outlines.Le.getElem? {frames frames' : List Outline} (h : Outlines.Le frames frames')
    {i : Nat} {o : Outline} (ho : frames[i]? = some o) : ∃ o', frames'[i]? = some o' ∧ o.Le o' := by
  induction h generalizing i with
  | nil => simp at ho
  | cons hd _ ih =>
    cases i with
    | zero =>
      simp only [List.getElem?_cons_zero, Option.some.injEq] at ho ⊢
      exact ⟨_, rfl, ho ▸ hd⟩
    | succ i =>
      rw [List.getElem?_cons_succ] at ho ⊢
      exact ih ho

/-- Whether an instruction finds what it addresses in frames with these outlines, of which the
    first is the own one and the last is that of the method. -/
def Opcode.Addresses (frames : List Outline) (op : Opcode) (first second : UInt8) : Prop :=
  match op with
  | .push .temporary | .pop .temporary =>
    ∃ o, frames[second.toNat]? = some o ∧ first.toNat < o.locals
  -- Argument zero is read in a method only, as its receiver, and never written.
  | .push .argument => ∃ o, frames[second.toNat]? = some o ∧ first.toNat < o.arguments ∧
      (first = 0 → second.toNat + 1 = frames.length)
  | .pop .argument => ∃ o, frames[second.toNat]? = some o ∧ first.toNat < o.arguments ∧ first ≠ 0
  | .push .field | .pop .field => second.toNat + 1 = frames.length
  | .pushSelf | .returnSelf => frames.length = 1
  | .returnNonLocal => first ≠ 0 ∧ first.toNat + 1 = frames.length
  | _ => True

theorem Opcode.Addresses.mono {frames frames' : List Outline} (hle : Outlines.Le frames frames')
    {op : Opcode} {first second : UInt8} (h : op.Addresses frames first second) :
    op.Addresses frames' first second := by
  have hlength := List.Forall₂.length_eq hle
  unfold Opcode.Addresses at h ⊢
  split at h
  · obtain ⟨o, ho, hlt⟩ := h
    obtain ⟨o', ho', hoo⟩ := hle.getElem? ho
    exact ⟨o', ho', hlt.trans_le hoo.locals⟩
  · obtain ⟨o, ho, hlt⟩ := h
    obtain ⟨o', ho', hoo⟩ := hle.getElem? ho
    exact ⟨o', ho', hlt.trans_le hoo.locals⟩
  · obtain ⟨o, ho, hlt, hzero⟩ := h
    obtain ⟨o', ho', hoo⟩ := hle.getElem? ho
    exact ⟨o', ho', hoo.arguments ▸ hlt, hlength ▸ hzero⟩
  · obtain ⟨o, ho, hlt, hzero⟩ := h
    obtain ⟨o', ho', hoo⟩ := hle.getElem? ho
    exact ⟨o', ho', hoo.arguments ▸ hlt, hzero⟩
  all_goals first | exact hlength ▸ h | trivial

/-! ### Labels -/

/-- The depth where a jump leads if it is taken, given the depth before it. -/
def Jump.landing (depth : Nat) : Jump → Nat
  | .always | .back | .test _ true => depth
  | .test _ false => depth - 1
  | .greater => depth - 2

/-- Whether an instruction has a literal operand. -/
def Opcode.hasLiteral : Opcode → Bool
  | .send _ | .pushGlobal | .pushBlock _ | .pushConstant => true
  | _ => false

variable {p : Program Code} {env : List Outline} {closed : Bool} {O : Set (Nat × Nat)}
  {D : Nat → Nat} {ip : Nat} {op : Opcode} {first second : UInt8}

/-- The offsets that execution may come to: the instruction starts, and the end of a program
    that is not closed. -/
def Program.Reaches (p : Program Code) (closed : Bool) (ip : Nat) : Prop :=
  ip ∈ p.tape.starts ∨ closed = false ∧ ip = p.tape.size

theorem Program.Reaches.mem_starts (h : p.Reaches true ip) : ip ∈ p.tape.starts := by
  rcases h with h | ⟨h, -⟩
  · exact h
  · cases h

/-- An instruction that suits the labels `D` of a program. The open jumps `O` each have an offset
    and the depth of the target that they are yet to get. -/
structure Program.Suits (p : Program Code) (env : List Outline) (closed : Bool)
    (O : Set (Nat × Nat)) (D : Nat → Nat) (ip : Nat) (op : Opcode) (first second : UInt8) :
    Prop where
  plain : op.isQuickened = false
  addresses : op.Addresses (p.outline :: env) first second
  literal : op.hasLiteral → ∃ l, p.literals[first.toNat]? = some l ∧ Tape.suits op l
  effect : ∃ pops pushes, p.tape.effect p.literals ip op = .ok (pops, pushes) ∧ pops ≤ D ip ∧
    (Tape.fallsThrough op → p.Reaches closed (ip + op.size) ∧
      D (ip + op.size) = D ip - pops + pushes)
  jump : ∀ j wide, op = .jump j wide → j ≠ .back ∧ (ip, j.landing (D ip)) ∈ O ∨
    ∃ target, p.tape.jumpTarget? ip j wide = some target ∧ p.Reaches closed target ∧
      D target = j.landing (D ip)
  /-- A block returns at its end only, with the value of its last statement. -/
  returns : op = .returnLocal → env = [] ∨ closed = true ∧ ip + 1 = p.tape.size ∧ D ip = 1

/-- The jump back at an offset, with the head of its loop, if there is one. -/
def Tape.back? (t : Tape) (ip : Nat) : Option (Nat × Nat) :=
  match t.opcode? ip with
  | some (.jump .back wide) => some (ip, ip - t.distance ip wide)
  | _ => none

/-- The jumps back on a tape, each with the head of its loop. -/
def Tape.backs (t : Tape) : List (Nat × Nat) :=
  t.starts.filterMap t.back?

/-- A program each of whose instructions, reachable or not, has a depth that suits it. -/
structure Program.Labelled (p : Program Code) (env : List Outline) (closed : Bool)
    (O : Set (Nat × Nat)) (D : Nat → Nat) : Prop where
  splits : p.tape.Splits
  start : D 0 = 0
  suits : ∀ ip ∈ p.tape.starts, ∀ op first second, p.tape.Reads ip op first second →
    p.Suits env closed O D ip op first second
  opened : ∀ x ∈ O, x.1 ∈ p.tape.starts ∧ ∃ j first second, j ≠ .back ∧
    p.tape.Reads x.1 (.jump j false) first second ∧ x.2 = j.landing (D x.1)
  /-- Every block of the pool is pushed somewhere. -/
  pushed : ∀ (i : Nat) c, p.literals[i]? = some (.block c) → ∃ ip ∈ p.tape.starts,
    ∃ withContext first second, p.tape.Reads ip (.pushBlock withContext) first second ∧
      first.toNat = i
  numbered : p.literals.size ≤ 256
  loops : p.loops.map (fun mark => (mark.jump, mark.head)) = p.tape.backs
  slots : ∀ (i : Nat) v, p.locals[i]? = some v → v.slot.toNat = i

/-! ### The check -/

namespace Program.Suits

/-- What suits the labels passes the check of its operands. -/
theorem checkOperands (h : p.Suits env true ∅ D ip op first second)
    (hr : p.tape.Reads ip op first second) {marks : Array Bool} (hm : p.tape.Marks marks) :
    p.tape.checkOperands p.literals p.arguments.size p.locals.size marks ip op = .ok () := by
  have haddr := h.addresses
  have hlit := h.literal
  cases op with
  | send _ | pushGlobal | pushBlock _ | pushConstant =>
    obtain ⟨l, hl, hs⟩ := hlit rfl
    rw [Tape.checkOperands, hr.first (by simp [Opcode.size]), hl]
    simp only [hs, if_true]
  | push place | pop place =>
    cases place with
    | temporary | argument =>
      rw [Tape.checkOperands, Tape.checkSlot, hr.first (by simp [Opcode.size]),
        hr.second (by simp [Opcode.size])]
      refine if_neg ?_
      -- The own frame is the first one.
      rintro ⟨rfl, hle⟩
      simp [Opcode.Addresses, Program.outline] at haddr
      omega
    | field => rfl
  | jump j wide =>
    rcases h.jump j wide rfl with ⟨-, hO⟩ | ⟨target, ht, hreach, -⟩
    · cases hO
    · have hmark := hm target
      rw [decide_eq_true hreach.mem_starts, Array.getD_eq_getD_getElem?] at hmark
      rw [Tape.checkOperands, ht, Option.bind_some, hmark]
      rfl
  | _ => rfl

/-- What suits the labels is visited with its label, and leads to labels. -/
theorem visit (h : p.Suits env true ∅ D ip op first second)
    (hr : p.tape.Reads ip op first second) :
    ∃ v, p.tape.visit p.literals ip (D ip) = .ok v ∧
      ∀ x ∈ v.next.toList ++ v.branch.toList, x.1 ∈ p.tape.starts ∧ x.2 = D x.1 := by
  obtain ⟨pops, pushes, heffect, hpops, hfalls⟩ := h.effect
  -- A jump leads to its target.
  have hbranch : ∀ j wide, op = .jump j wide →
      let x := p.tape.taken ip j wide (D ip) (D ip - pops + pushes)
      x.1 ∈ p.tape.starts ∧ x.2 = D x.1 := by
    rintro j wide rfl
    rcases h.jump j wide rfl with ⟨-, hO⟩ | ⟨target, ht, hreach, hD⟩
    · cases hO
    · rw [Tape.jumpTarget?] at ht
      have hmem := hreach.mem_starts
      cases j with
      | back =>
        obtain ⟨rfl, rfl⟩ : 0 = pops ∧ 0 = pushes := by simpa [Tape.effect] using heffect
        simp only [if_true, Option.ite_none_right_eq_some, Option.some.injEq] at ht
        obtain ⟨-, rfl⟩ := ht
        exact ⟨hmem, hD.symm⟩
      | always =>
        obtain ⟨rfl, rfl⟩ : 0 = pops ∧ 0 = pushes := by simpa [Tape.effect] using heffect
        simp only [reduceCtorEq, if_false, Option.ite_none_right_eq_some, Option.some.injEq] at ht
        obtain ⟨-, rfl⟩ := ht
        exact ⟨hmem, hD.symm⟩
      | test on leavesNil =>
        obtain ⟨rfl, rfl⟩ : 1 = pops ∧ 0 = pushes := by simpa [Tape.effect] using heffect
        simp only [reduceCtorEq, if_false, Option.ite_none_right_eq_some, Option.some.injEq] at ht
        obtain ⟨-, rfl⟩ := ht
        cases leavesNil with
        | false => exact ⟨hmem, hD.symm⟩
        | true =>
          refine ⟨hmem, ?_⟩
          simp only [Tape.taken]
          rw [hD, Jump.landing]
          omega
      | greater =>
        simp only [reduceCtorEq, if_false, Option.ite_none_right_eq_some, Option.some.injEq] at ht
        obtain ⟨-, rfl⟩ := ht
        exact ⟨hmem, hD.symm⟩
  unfold Tape.visit
  rw [hr.opcode]
  dsimp only
  rw [heffect]
  dsimp only
  rw [if_neg (by omega)]
  by_cases hf : Tape.fallsThrough op
  · obtain ⟨hreach, hD⟩ := hfalls hf
    have hmem := hreach.mem_starts
    have hlt := Tape.lt_of_mem_startsFrom hmem
    rw [if_pos hf, if_neg (by omega)]
    refine ⟨_, rfl, fun x hx => ?_⟩
    rcases List.mem_append.1 hx with hx | hx
    · simp only [Option.toList_some, List.mem_singleton] at hx
      subst hx
      exact ⟨hmem, hD.symm⟩
    · cases op with
      | jump j wide =>
        simp only [Option.toList_some, List.mem_singleton] at hx
        subst hx
        exact hbranch j wide rfl
      | _ => simp at hx
  · rw [if_neg hf]
    refine ⟨_, rfl, fun x hx => ?_⟩
    cases op with
    | jump j wide =>
      simp only [Option.toList_none, List.nil_append, Option.toList_some, List.mem_singleton] at hx
      subst hx
      exact hbranch j wide rfl
    | _ => simp at hx

end Program.Suits

/-- A closed program without open jumps passes the check. -/
theorem Program.Labelled.check (h : p.Labelled env true ∅ D) (hne : 0 < p.tape.size) :
    ∃ r, p.tape.check p.literals p.arguments.size p.locals.size = .ok r := by
  refine Tape.check_of_agree (fun ip => if ip ∈ p.tape.starts then some (D ip) else none)
    (fun ip hip => ?_) (fun marks hm ip hip op ho => ?_) ⟨?_, fun ip d hd => ?_, fun ip d hd => ?_⟩
  · obtain ⟨op, first, second, hr⟩ := h.splits.reads hip
    exact ⟨op, hr.opcode, (h.suits ip hip op _ _ hr).plain, hr.fits⟩
  · obtain ⟨first, second, hr⟩ := h.splits.reads_at hip ho
    exact (h.suits ip hip op _ _ hr).checkOperands hr hm
  · have hzero : 0 ∈ p.tape.starts := Tape.mem_startsFrom_self hne
    rw [if_pos hzero, h.start]
  · rw [Option.ite_none_right_eq_some] at hd
    exact Tape.lt_of_mem_startsFrom hd.1
  · rw [Option.ite_none_right_eq_some] at hd
    obtain ⟨hip, hd⟩ := hd
    obtain ⟨op, first, second, hr⟩ := h.splits.reads hip
    obtain ⟨v, hv, hlead⟩ := (h.suits ip hip op _ _ hr).visit hr
    cases hd
    refine ⟨v, hv, fun x hx => ?_⟩
    obtain ⟨hmem, hD⟩ := hlead x hx
    rw [if_pos hmem, hD]

/-- The parts of a closed program make it, with the bound that the check finds. -/
theorem Program.Labelled.make (h : p.Labelled env true ∅ D) (hne : 0 < p.tape.size) :
    ∃ maxStack, Program.make p.tape p.literals p.arguments p.locals p.loops =
      .ok { p with maxStack } := by
  obtain ⟨⟨depths, bound⟩, hcheck⟩ := h.check hne
  refine ⟨bound, ?_⟩
  rw [Program.make, Tape.stackBound, hcheck]
  rfl

/-- The bound has no part in the labels. -/
theorem Program.Labelled.withBound (h : p.Labelled env closed O D) (maxStack : Nat) :
    { p with maxStack }.Labelled env closed O D :=
  ⟨h.splits, h.start, fun ip hip op first second hr =>
    have hs := h.suits ip hip op first second hr
    ⟨hs.plain, hs.addresses, hs.literal, hs.effect, hs.jump, hs.returns⟩,
    h.opened, h.pushed, h.numbered, h.loops, h.slots⟩

/-! ### Codes -/

theorem Program.Suits.mono {env' : List Outline} (h : p.Suits env closed O D ip op first second)
    (hle : Outlines.Le env env') : p.Suits env' closed O D ip op first second where
  plain := h.plain
  addresses := h.addresses.mono (.cons (.refl _) hle)
  literal := h.literal
  effect := h.effect
  jump := h.jump
  returns hop := by
    rcases h.returns hop with rfl | hend
    · cases hle
      exact .inl rfl
    · exact .inr hend

theorem Program.Labelled.mono {env' : List Outline} (h : p.Labelled env closed O D)
    (hle : Outlines.Le env env') : p.Labelled env' closed O D where
  splits := h.splits
  start := h.start
  suits ip hip op first second hr := (h.suits ip hip op first second hr).mono hle
  opened := h.opened
  pushed := h.pushed
  numbered := h.numbered
  loops := h.loops
  slots := h.slots

/-- The last instruction of a program. -/
def Program.EndsWith (p : Program Code) (op : Opcode) : Prop :=
  ∃ ip ∈ p.tape.starts, p.tape.opcode? ip = some op ∧ ip + op.size = p.tape.size

/-- A program whose last instruction leaves it. -/
def Program.Ends (p : Program Code) : Prop :=
  p.EndsWith .returnLocal ∨ p.EndsWith .returnNonLocal

/-- A code that is labelled, and so are its blocks, given the frames around it: none around a
    method, for a block that of the scope it is written in and those around that one, as many as
    the level of an access can tell apart. -/
inductive Code.Lexical : Code → List Outline → Prop
  | mk {c : Code} {env : List Outline} {D : Nat → Nat} :
      env.length < 256 →
      c.isBlock = !env.isEmpty →
      0 < c.program.tape.size →
      c.program.Labelled env true ∅ D →
      (env ≠ [] → c.program.Ends) →
      (∀ ip ∈ c.program.tape.starts, ∀ withContext first second b,
        c.program.tape.Reads ip (.pushBlock withContext) first second →
        c.program.literals[first.toNat]? = some (.block b) →
        b.program.needsContext = withContext) →
      (∀ ip ∈ c.program.tape.starts, ∀ withContext first second b,
        c.program.tape.Reads ip (.pushBlock withContext) first second →
        c.program.literals[first.toNat]? = some (.block b) →
        Lexical b (c.program.outline :: env)) →
      Lexical c env

/-- Blocks are pushed with a context if they need one, and fit into the frames around them. -/
def Program.Encloses (p : Program Code) (env : List Outline) : Prop :=
  ∀ ip ∈ p.tape.starts, ∀ withContext first second b,
    p.tape.Reads ip (.pushBlock withContext) first second →
    p.literals[first.toNat]? = some (.block b) →
    b.program.needsContext = withContext ∧ b.Lexical (p.outline :: env)

namespace Code.Lexical

variable {c : Code}

theorem length_lt (h : c.Lexical env) : env.length < 256 := by
  cases h
  assumption

theorem isBlock (h : c.Lexical env) : c.isBlock = !env.isEmpty := by
  cases h
  assumption

theorem nonempty (h : c.Lexical env) : 0 < c.program.tape.size := by
  cases h
  assumption

theorem labelled (h : c.Lexical env) : ∃ D, c.program.Labelled env true ∅ D := by
  cases h
  exact ⟨_, ‹_›⟩

theorem ends (h : c.Lexical env) (hne : env ≠ []) : c.program.Ends := by
  cases h with
  | mk _ _ _ _ hends => exact hends hne

theorem encloses (h : c.Lexical env) : c.program.Encloses env := by
  cases h with
  | mk _ _ _ _ _ hneeds hinner =>
    exact fun ip hip w first second b hr hl =>
      ⟨hneeds ip hip w first second b hr hl, hinner ip hip w first second b hr hl⟩

theorem of_encloses (hlength : env.length < 256) (hkind : c.isBlock = !env.isEmpty)
    (hpos : 0 < c.program.tape.size) (hlabelled : c.program.Labelled env true ∅ D)
    (hends : env ≠ [] → c.program.Ends) (hencloses : c.program.Encloses env) : c.Lexical env :=
  .mk hlength hkind hpos hlabelled hends
    (fun ip hip w first second b hr hl => (hencloses ip hip w first second b hr hl).1)
    (fun ip hip w first second b hr hl => (hencloses ip hip w first second b hr hl).2)

/-- The check of a lexical code passes. -/
theorem check (h : c.Lexical env) : ∃ r,
    c.program.tape.check c.program.literals c.program.arguments.size c.program.locals.size =
      .ok r := by
  obtain ⟨D, hD⟩ := h.labelled
  exact hD.check h.nonempty

/-- The frames around a code may get further locals. -/
theorem mono (h : c.Lexical env) : ∀ {env'}, Outlines.Le env env' → c.Lexical env' := by
  induction h with
  | @mk c env D hlength hkind hpos hlabelled hends hneeds _ ih =>
    intro env' hle
    have hempty : env' = [] ↔ env = [] := by
      rw [← List.length_eq_zero_iff, ← List.length_eq_zero_iff, List.Forall₂.length_eq hle]
    refine .mk (D := D) (List.Forall₂.length_eq hle ▸ hlength) ?_ hpos (hlabelled.mono hle)
      (fun hne => hends ?_) hneeds
      fun ip hip w first second b hr hl => ih ip hip w first second b hr hl (.cons (.refl _) hle)
    · rw [hkind, Bool.eq_iff_iff]
      simp [hempty]
    · exact fun he => hne (hempty.2 he)

end Code.Lexical

/-! ### Blocks without a context -/

theorem Program.needsContext_eq_false_iff :
    p.needsContext = false ↔ ∀ ip ∈ p.tape.starts, ∀ op, p.tape.opcode? ip = some op →
      (∀ place, op = .push place ∨ op = .pop place → p.tape.byteAt (ip + 2) = 0) ∧
        op ≠ .returnNonLocal ∧ op ≠ .pushBlock true := by
  rw [needsContext, List.any_eq_false]
  refine forall₂_congr fun ip hip => ?_
  cases p.tape.opcode? ip with
  | none => simp
  | some op =>
    cases op with
    | pushBlock withContext => cases withContext <;> simp
    | _ => simp [UInt8.pos_iff_ne_zero]

/-- What an instruction of a block addresses in the own frame is there in any scope. -/
theorem Opcode.Addresses.anywhere {o : Outline} (h : op.Addresses (o :: env) first second)
    (hne : env ≠ []) (hlevel : ∀ place, op = .push place ∨ op = .pop place → second = 0)
    (hleave : op ≠ .returnNonLocal) (env' : List Outline) :
    op.Addresses (o :: env') first second := by
  have hlength : (o :: env).length ≠ 1 := by simp [hne]
  unfold Opcode.Addresses at h ⊢
  split at h
  -- The own frame is the same in both.
  · cases hlevel _ (.inl rfl)
    exact h
  · cases hlevel _ (.inr rfl)
    exact h
  · cases hlevel _ (.inl rfl)
    obtain ⟨o, ho, hlt, hfirst⟩ := h
    exact ⟨o, ho, hlt, fun hf => absurd (hfirst hf).symm hlength⟩
  · cases hlevel _ (.inr rfl)
    exact h
  -- Fields and the receiver are those of the method.
  · cases hlevel _ (.inl rfl)
    exact absurd h.symm hlength
  · cases hlevel _ (.inr rfl)
    exact absurd h.symm hlength
  · exact absurd h hlength
  · exact absurd h hlength
  · exact absurd rfl hleave
  · trivial

theorem Program.needsContext_level (hneeds : p.needsContext = false) (hip : ip ∈ p.tape.starts)
    (hr : p.tape.Reads ip op first second) (place : Place)
    (hop : op = .push place ∨ op = .pop place) : second = 0 := by
  obtain ⟨hlevel, -, -⟩ := Program.needsContext_eq_false_iff.1 hneeds ip hip op hr.opcode
  rw [← hr.second (by rcases hop with rfl | rfl <;> simp [Opcode.size]), hlevel place hop]

/-- A block that needs no context may be in any scope, if that is no deeper. -/
theorem Code.Lexical.anywhere {c : Code} (h : c.Lexical env) (hne : env ≠ [])
    (hneeds : c.program.needsContext = false) {env' : List Outline} (hne' : env' ≠ [])
    (hle : env'.length ≤ env.length) : c.Lexical env' := by
  induction h generalizing env' with
  | @mk c env D hlength hkind hpos hlabelled hends hneed _ ih =>
    have hlocal := Program.needsContext_eq_false_iff.1 hneeds
    refine .mk (D := D) (hle.trans_lt hlength) ?_ hpos ?_ (fun _ => hends hne) hneed
      fun ip hip w first second b hr hl => ih ip hip w first second b hr hl (by simp) ?_ (by simp)
        (Nat.succ_le_succ hle)
    · rw [hkind, Bool.eq_iff_iff]
      simp [hne, hne']
    · refine { hlabelled with suits := fun ip hip op first second hr => ?_ }
      have hs := hlabelled.suits ip hip op first second hr
      obtain ⟨-, hleave, -⟩ := hlocal ip hip op hr.opcode
      exact { hs with
        addresses := hs.addresses.anywhere hne (Program.needsContext_level hneeds hip hr) hleave _
        returns := fun hop => (hs.returns hop).imp_left (absurd · hne) }
    · obtain ⟨-, -, hpush⟩ := hlocal ip hip _ hr.opcode
      rw [hneed ip hip w first second b hr hl]
      simpa using hpush

end Parley
