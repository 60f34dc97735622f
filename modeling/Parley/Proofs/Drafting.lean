import Parley.Proofs.Writing

/-!
# Drafts in good order

A draft stands in good order (`Draft.Stands`) while it is written: what is there is labelled, and
the next instruction will find a known depth. All that is known of earlier offsets is which
forward jumps are open, with the depth that each one leads to, and the depths at some places that
jumps back will be made to. Each way of writing keeps the order.

* `Stands.emit`, `Stands.emitLiteral`: an instruction that does not jump;
* `Stands.emitJump`, `Stands.patchHere`: a forward jump is opened, and gets its target;
* `Stands.emitBack`: a jump back to a place with the depth that there is now;
* `Stands.mergeLocal`: a variable that comes in from another scope;
* `Stands.leave`: with an instruction that leaves it, a draft without open jumps is complete;
* `Complete.finish`: a complete draft can be finished.
-/

namespace Parley

variable {env : List Outline} {O O' K : Set (Nat × Nat)} {D : Nat → Nat}
  {ip n n' pops pushes : Nat} {op : Opcode}

/-! ### Failures -/

/-- Whether an error says that something is wrong with the compiler and not with the tree. -/
def CompileError.isDefect : CompileError → Bool
  | .splice _ | .rejected _ _ => true
  | .limit _ | .invalid _ => false

/-- A step of the compiler succeeds as described, or fails by no defect. -/
def Yields {α : Type} (x : Except CompileError α) (post : α → Prop) : Prop :=
  (∃ a, x = .ok a ∧ post a) ∨ ∃ e, x = .error e ∧ e.isDefect = false

theorem Yields.of_ok {α : Type} {x : Except CompileError α} {post : α → Prop} {a : α}
    (h : Yields x post) (ha : x = .ok a) : post a := by
  rcases h with ⟨b, hb, hpost⟩ | ⟨e, he, -⟩
  · obtain rfl := Except.ok.inj (hb.symm.trans ha)
    exact hpost
  · cases he.symm.trans ha

/-! ### Drafts -/

namespace Draft

/-- The program that a draft is so far. -/
def program (d : Draft) : Program Code :=
  ⟨d.tape, d.literals, d.arguments, d.locals, 0, d.loops⟩

/-- The outline of the frame that a draft is for. -/
def outline (d : Draft) : Outline :=
  d.program.outline

/-- A draft in good order: `O` are the open jumps with the depths that they lead to, `K` are places
    whose depths are known, and `n` is the depth in front of the next instruction. -/
structure Stands (d : Draft) (env : List Outline) (O K : Set (Nat × Nat)) (n : Nat) : Prop where
  labels : ∃ D, d.program.Labelled env false O D ∧ D d.position = n ∧
    ∀ x ∈ K, d.tape.Place x.1 ∧ D x.1 = x.2
  encloses : d.program.Encloses env

/-- A draft that can be finished, with its last instruction. -/
structure Complete (d : Draft) (env : List Outline) (op : Opcode) : Prop where
  nonempty : 0 < d.tape.size
  labelled : ∃ D, d.program.Labelled env true ∅ D
  encloses : d.program.Encloses env
  endsWith : d.program.EndsWith op
  leaves : env ≠ [] → op = .returnLocal ∨ op = .returnNonLocal

variable {d d' : Draft} {operands : List UInt8}

/-- Writing on an instruction that suits the depths there are. -/
theorem Stands.write (h : d.Stands env O K n) (hw : d.program.WrittenOn d'.program op operands)
    (hO : O ⊆ O') (hopened : ∀ x ∈ O', x ∈ O ∨ x.1 = d.position ∧
      ∃ j, j ≠ .back ∧ op = .jump j false ∧ x.2 = j.landing n)
    (hnew : ∀ withContext b, op = .pushBlock withContext →
      d'.literals[(operands.getD 0 0).toNat]? = some (.block b) →
      b.program.needsContext = withContext ∧ b.Lexical (d.outline :: env))
    (hs : ∀ D, D d.position = n → D d'.position = n' →
      (∀ x ∈ K, d.tape.Place x.1 ∧ D x.1 = x.2) →
      d'.program.Suits env false O' D d.position op (operands.getD 0 0) (operands.getD 1 0)) :
    d'.Stands env O' K n' := by
  obtain ⟨⟨D, hD, hn, hK⟩, hin⟩ := h
  have hsize : d'.position = d.position + op.size := hw.size
  have hpos := op.size_pos
  -- The labels stay where they are, and the new end gets one.
  let D' : Nat → Nat := fun i => if i ≤ d.position then D i else n'
  have hD' : ∀ i, i ≤ d.position → D' i = D i := fun i hi => if_pos hi
  have hend : D' d'.position = n' := if_neg (by omega)
  have hle : ∀ i, d.tape.Place i → i ≤ d.position := by
    rintro i (hi | rfl)
    · exact (Tape.lt_of_mem_startsFrom hi).le
    · exact le_rfl
  have hold : d.program.Labelled env false O D' := by
    refine hD.congr ?_ fun i hi => hD' i (hle i (hi.imp_right (·.2)))
    rcases Nat.eq_zero_or_pos d.position with hzero | hzero
    · exact .inr ⟨rfl, hzero.symm⟩
    · exact .inl (Tape.mem_startsFrom_self hzero)
  have hK' : ∀ x ∈ K, d.tape.Place x.1 ∧ D' x.1 = x.2 := fun x hx =>
    ⟨(hK x hx).1, (hD' _ (hle _ (hK x hx).1)).trans (hK x hx).2⟩
  have hn' : D' d.position = n := (hD' _ le_rfl).trans hn
  refine ⟨⟨D', hw.labelled hold hO (fun x hx => ?_) (hs D' hn' hend hK'), hend,
    fun x hx => ⟨.inl ?_, (hK' x hx).2⟩⟩, hw.encloses hold.splits hold hin hnew⟩
  · rcases hopened x hx with hx | ⟨hip, j, hj, hop, hlanding⟩
    · exact .inl hx
    · exact .inr ⟨hip, j, hj, hop, by rw [hlanding, hip, hn']⟩
  · exact hw.mem_starts hold.splits ((hK' x hx).1.imp_right fun hx => ⟨rfl, hx⟩)

theorem emit_tape (d : Draft) (op : Opcode) (operands : List UInt8) :
    (d.emit op operands).tape = d.tape ++ Tape.written op operands := by
  simp only [emit, Tape.written, List.foldl_push_eq_append']
  rw [Array.push_eq_append, Array.append_assoc]
  simp

theorem emit_writtenOn (d : Draft) (hn : operands.length + 1 = op.size)
    (hback : op.back? d.position (operands.getD 0 0) (operands.getD 1 0) = none)
    (hd : d.literals.size ≤ 256) :
    d.program.WrittenOn (d.emit op operands).program op operands where
  length := hn
  tape := d.emit_tape op operands
  arguments := rfl
  locals := rfl
  literals _ _ hl := hl
  pushed _ _ hc := .inl hc
  numbered := hd
  loops := by
    rw [show d.program.tape.size = d.position from rfl, hback]
    simp [program, emit]

namespace Stands

theorem literals_le (h : d.Stands env O K n) : d.literals.size ≤ 256 := by
  obtain ⟨⟨D, hD, -⟩, -⟩ := h
  exact hD.numbered

/-- Less may be known of earlier places. -/
theorem forget {K' : Set (Nat × Nat)} (h : d.Stands env O K n) (hK : K' ⊆ K) :
    d.Stands env O K' n := by
  obtain ⟨⟨D, hD, hn, hKD⟩, hin⟩ := h
  exact ⟨⟨D, hD, hn, fun x hx => hKD x (hK hx)⟩, hin⟩

/-- The place where a draft stands, with the depth that there is now, may be remembered. -/
theorem remember (h : d.Stands env O K n) : d.Stands env O (insert (d.position, n) K) n := by
  obtain ⟨⟨D, hD, hn, hK⟩, hin⟩ := h
  refine ⟨⟨D, hD, hn, ?_⟩, hin⟩
  rintro x (rfl | hx)
  · exact ⟨.inr rfl, hn⟩
  · exact hK x hx

/-- An open jump is behind. -/
theorem lt_position (h : d.Stands env O K n) {x : Nat × Nat} (hx : x ∈ O) : x.1 < d.position := by
  obtain ⟨⟨D, hD, -⟩, -⟩ := h
  exact Tape.lt_of_mem_startsFrom (hD.opened x hx).1

/-- Writing an instruction that neither has a literal nor jumps. -/
theorem emit (h : d.Stands env O K n) (he : op.effect? = some (pops, pushes))
    (hlength : operands.length + 1 = op.size)
    (haddr : op.Addresses (d.outline :: env) (operands.getD 0 0) (operands.getD 1 0))
    (hpops : pops ≤ n) (hfalls : Tape.fallsThrough op → n' = n - pops + pushes)
    (hreturns : op = .returnLocal → env = []) : (d.emit op operands).Stands env O K n' := by
  have hback : op.back? d.position (operands.getD 0 0) (operands.getD 1 0) = none := by
    cases op <;> first | rfl | cases he
  have hw := d.emit_writtenOn hlength hback h.literals_le
  refine h.write hw Set.Subset.rfl (fun x hx => .inl hx) (fun w b hop => ?_)
    fun D hn hn' _ => .of_effect? he (hw.outline ▸ haddr) (hn ▸ hpops) (fun hf => ?_)
      fun hop => .inl (hreturns hop)
  · subst hop
    cases he
  · have hsize : d.position + op.size = (d.emit op operands).position := hw.size.symm
    exact ⟨.inr ⟨rfl, hsize⟩, by rw [hsize, hn', hn, hfalls hf]⟩

/-- With an instruction that leaves it, a draft without open jumps is complete. -/
theorem leave (h : d.Stands env ∅ K n) (he : op.effect? = some (pops, pushes))
    (hlength : operands.length + 1 = op.size)
    (haddr : op.Addresses (d.outline :: env) (operands.getD 0 0) (operands.getD 1 0))
    (hpops : pops ≤ n) (hfalls : Tape.fallsThrough op = false)
    (hblock : env ≠ [] → op = .returnLocal ∧ n = 1 ∨ op = .returnNonLocal) :
    (d.emit op operands).Complete env op := by
  have hback : op.back? d.position (operands.getD 0 0) (operands.getD 1 0) = none := by
    cases op <;> first | rfl | cases he
  have hw := d.emit_writtenOn hlength hback h.literals_le
  obtain ⟨⟨D, hD, hn, -⟩, hin⟩ := h
  have hsize : (d.emit op operands).position = d.position + op.size := hw.size
  have hpos := op.size_pos
  refine ⟨?_, ⟨D, hw.labelled hD Set.Subset.rfl (fun x hx => .inl hx)
    (.of_effect? he (hw.outline ▸ haddr) (le_of_le_of_eq hpops hn.symm) ?_ fun hop => ?_)⟩,
    hw.encloses hD.splits hD hin fun w b hop => ?_,
    ⟨d.position, hw.mem_starts hD.splits (.inr ⟨rfl, rfl⟩), hw.reads.opcode, hsize.symm⟩,
    fun hne => (hblock hne).imp_left (·.1)⟩
  · rw [show (d.emit op operands).tape.size = (d.emit op operands).position from rfl, hsize]
    omega
  · rw [hfalls]
    exact fun hf => absurd hf (by simp)
  · by_cases hne : env = []
    · exact .inl hne
    · rcases hblock hne with ⟨-, hone⟩ | hop'
      · refine .inr ⟨rfl, ?_, hn.trans hone⟩
        rw [show (d.emit op operands).program.tape.size = (d.emit op operands).position from rfl,
          hsize, hop]
        rfl
      · rw [hop] at hop'
        cases hop'
  · subst hop
    cases he

end Stands

/-! ### Literals -/

/-- A literal that is put into a pool is found there, or one that counts as the same. -/
theorem addLiteral_yields (hd : d.literals.size ≤ 256) (l : Literal Code) :
    Yields (d.addLiteral l) fun r => ∃ pool m, r.2 = { d with literals := pool } ∧
      pool.size ≤ 256 ∧ pool[r.1.toNat]? = some m ∧ (m = l ∨ m ∈ d.literals ∧ m.sameAs l) ∧
      (∀ (i : Nat) m, d.literals[i]? = some m → pool[i]? = some m) ∧
      ∀ (i : Nat) m, pool[i]? = some m → d.literals[i]? = some m ∨ i = r.1.toNat := by
  rw [addLiteral]
  split
  · rename_i i hi
    obtain ⟨hlt, hsame, -⟩ := Array.findIdx?_eq_some_iff_getElem.1 hi
    have htoNat : (UInt8.ofNat i).toNat = i := by
      rw [UInt8.toNat_ofNat']
      omega
    refine .inl ⟨_, rfl, d.literals, d.literals[i], rfl, hd, ?_, ?_, fun _ _ h => h,
      fun _ _ h => .inl h⟩
    · rw [htoNat, Array.getElem?_eq_getElem hlt]
    · exact .inr ⟨Array.getElem_mem hlt, hsame⟩
  · split
    · exact .inr ⟨_, rfl, rfl⟩
    · rename_i hsize
      have htoNat : (UInt8.ofNat d.literals.size).toNat = d.literals.size := by
        rw [UInt8.toNat_ofNat']
        omega
      refine .inl ⟨_, rfl, d.literals.push l, l, rfl, ?_, ?_, .inl rfl, fun i m hm => ?_,
        fun i m hm => ?_⟩
      · rw [Array.size_push]
        omega
      · rw [htoNat, Array.getElem?_push_size]
      · have hlt := (Array.getElem?_eq_some_iff.1 hm).1
        rw [Array.getElem?_push_lt hlt, ← Array.getElem?_eq_getElem hlt, hm]
      · rw [Array.getElem?_push] at hm
        split at hm
        · rename_i hi
          exact .inr (hi.trans htoNat.symm)
        · exact .inl hm

namespace Stands

/-- Writing an instruction with a literal. A block must fit in, and no other code with its number
    may be among the literals. -/
theorem emitLiteral (h : d.Stands env O K n) {l : Literal Code} (hsuits : Tape.suits op l)
    (heffect : op.literalEffect l = (pops, pushes)) (hpops : pops ≤ n)
    (hn' : n' = n - pops + pushes)
    (hblock : ∀ withContext b, op = .pushBlock withContext → l = .block b →
      b.program.needsContext = withContext ∧ b.Lexical (d.outline :: env) ∧
        ∀ c, .block c ∈ d.literals → c.id = b.id → c = b) :
    Yields (d.emitLiteral op l) fun d' => d'.Stands env O K n' ∧
      d'.position = d.position + op.size ∧ d'.arguments = d.arguments ∧ d'.locals = d.locals := by
  rw [Draft.emitLiteral]
  rcases d.addLiteral_yields h.literals_le l with ⟨⟨index, d'⟩, hr, hadd⟩ | ⟨e, hr, he⟩
  · rw [hr]
    obtain ⟨pool, m, hd', hsize, hm, hml, hkeep, hnew⟩ := hadd
    dsimp only at hd' hm hnew
    subst hd'
    have hop : op.hasLiteral := by cases op <;> first | rfl | cases hsuits
    have hlength : [index].length + 1 = op.size := by cases op <;> first | rfl | cases hop
    have hback : op.back? d.position index 0 = none := by cases op <;> first | rfl | cases hop
    -- The literal that is found does what the one that was asked for does.
    have hm' : Tape.suits op m ∧ op.literalEffect m = (pops, pushes) := by
      rcases hml with rfl | ⟨-, hsame⟩
      · exact ⟨hsuits, heffect⟩
      · exact Literal.sameAs_suits hsame hsuits heffect
    have hw : d.program.WrittenOn ({ d with literals := pool }.emit op [index]).program op
      [index] :=
      { Draft.emit_writtenOn { d with literals := pool } hlength hback hsize with
        literals := hkeep
        pushed := fun i c hc => by
          rcases hnew i _ hc with hc | rfl
          · exact .inl hc
          · refine .inr ?_
            obtain rfl : m = .block c := Option.some.inj (hm.symm.trans hc)
            cases op <;> first | exact ⟨_, rfl, rfl⟩ | simp [Tape.suits] at hm' }
    refine .inl ⟨_, rfl, h.write hw Set.Subset.rfl (fun x hx => .inl hx) (fun w b hpush hb => ?_)
      (fun D hD hD' _ => ?_), hw.size, rfl, rfl⟩
    · -- A block in the pool that counts as the same is the same.
      obtain rfl : m = .block b := Option.some.inj (hm.symm.trans hb)
      subst hpush
      rcases hml with rfl | ⟨hmem, hsame⟩
      · exact ⟨(hblock w b rfl rfl).1, (hblock w b rfl rfl).2.1⟩
      · cases l with
        | block c =>
          obtain ⟨hneeds, hlexical, hid⟩ := hblock w c rfl rfl
          obtain rfl := hid b hmem (of_decide_eq_true hsame)
          exact ⟨hneeds, hlexical⟩
        | _ => cases hsame
    · have hnext : d.position + op.size = ({ d with literals := pool }.emit op [index]).position :=
        hw.size.symm
      refine ⟨?_, ?_, fun _ => ⟨m, hm, hm'.1⟩, ⟨pops, pushes, ?_, hD ▸ hpops, fun _ => ?_⟩,
        fun j wide hj => ?_, fun hj => ?_⟩
      · cases op <;> first | rfl | cases hop
      · cases op <;> trivial
      · rw [← hm'.2]
        exact Tape.effect_of_literal hw.reads hm hm'.1
      · exact ⟨.inr ⟨rfl, hnext⟩, by rw [hnext, hD', hD, hn']⟩
      · subst hj
        cases hop
      · subst hj
        cases hop
  · rw [hr]
    exact .inr ⟨e, rfl, he⟩

end Stands

/-! ### Forward jumps -/

/-- Opening a forward jump. -/
theorem Stands.emitJump (h : d.Stands env O K n) {j : Jump} (hj : j ≠ .back)
    (hpops : j.effect.1 ≤ n)
    (hfalls : Tape.fallsThrough (.jump j false) → n' = n - j.effect.1 + j.effect.2) :
    (d.emitJump (.jump j false)).2.Stands env (insert (d.position, j.landing n) O) K n' := by
  have hback : (Opcode.jump j false).back? d.position 0 0 = none := by
    cases j <;> first | rfl | exact absurd rfl hj
  have hw : d.program.WrittenOn (d.emitJump (.jump j false)).2.program (.jump j false) [0, 0] :=
    d.emit_writtenOn rfl hback h.literals_le
  refine h.write hw (Set.subset_insert _ _) (fun x hx => ?_) nofun
    fun D hn hn' _ => ⟨rfl, trivial, nofun,
      ⟨_, _, Tape.effect_jump _ _ _ _ _, hn ▸ hpops, fun hf => ?_⟩, fun k wide hk => ?_, nofun⟩
  · rcases hx with rfl | hx
    · exact .inr ⟨rfl, j, hj, rfl, rfl⟩
    · exact .inl hx
  · have hnext : d.position + (Opcode.jump j false).size =
        (d.emitJump (.jump j false)).2.position := hw.size.symm
    refine ⟨.inr ⟨rfl, hnext⟩, ?_⟩
    rw [hnext, hn', hn]
    exact hfalls hf
  · cases hk
    exact .inl ⟨hj, .inl (by rw [hn])⟩

/-- The bytes of a distance that is not too long hold it. -/
theorem jumpDistance_distanceBytes {distance : Nat} {wide : Bool} (hle : distance ≤ 65535)
    (hwide : wide = false → distance ≤ 255) :
    jumpDistance wide (distanceBytes distance).1 (distanceBytes distance).2 = distance := by
  cases wide with
  | false =>
    have := hwide rfl
    simp [jumpDistance, distanceBytes]
    omega
  | true =>
    simp [jumpDistance, distanceBytes]
    omega

/-- Writing over an instruction of three bytes changes nothing else. -/
theorem overwrite_differsAt (d : Draft) (ip : Nat) (op : Opcode)
    (bytes : UInt8 × UInt8) (op' : Opcode) (hsize : op'.size = 3) :
    d.tape.DiffersAt (d.overwrite ip op bytes).tape ip op' where
  size := by simp [overwrite]
  elsewhere i hi := by
    rw [hsize] at hi
    simp only [overwrite]
    rw [Array.getElem?_setIfInBounds_ne (by omega), Array.getElem?_setIfInBounds_ne (by omega),
      Array.getElem?_setIfInBounds_ne (by omega)]

theorem overwrite_reads (d : Draft) {ip : Nat} (hip : ip + 3 ≤ d.tape.size) (op : Opcode)
    (bytes : UInt8 × UInt8) (hsize : op.size = 3) :
    (d.overwrite ip op bytes).tape.Reads ip op bytes.1 bytes.2 := by
  have h₀ : ip < d.tape.size := by omega
  have h₁ : ip + 1 < d.tape.size := by omega
  have h₂ : ip + 2 < d.tape.size := by omega
  refine Tape.reads_of_bytes hsize (b := op.byte) ?_ op.ofByte?_byte ?_ ?_
  · simp [overwrite, h₀]
  · simp [overwrite, h₁]
  · simp [overwrite, h₂]

namespace Stands

/-- An open jump is pointed, in a form with room for the distance, to where the draft stands. -/
theorem overwrite (h : d.Stands env (insert (ip, n) O) K n) (hO : ∀ x ∈ O, x.1 ≠ ip) {j : Jump}
    {wide narrow : Bool} (hj : j ≠ .back) (ho : d.tape.opcode? ip = some (.jump j narrow))
    (hle : d.position - ip ≤ 65535) (hwide : wide = false → d.position - ip ≤ 255) :
    (d.overwrite ip (.jump j wide) (distanceBytes (d.position - ip))).Stands env O K n := by
  obtain ⟨⟨D, hD, hn, hK⟩, hin⟩ := h
  obtain ⟨hip, j', first, second, -, hr, hlanding⟩ := hD.opened (ip, n) (.inl rfl)
  obtain ⟨rfl, rfl⟩ : j' = j ∧ false = narrow := by simpa using hr.opcode.symm.trans ho
  have ht : d.program.Retargeted (d.overwrite ip (.jump j' wide)
      (distanceBytes (d.position - ip))).program ip j' wide
      (distanceBytes (d.position - ip)).1 (distanceBytes (d.position - ip)).2 :=
    { mem := hip, old := ⟨_, _, hr⟩, forward := hj
      new := d.overwrite_reads hr.fits _ _ rfl
      differs := d.overwrite_differsAt ip _ _ _ rfl
      literals := rfl, arguments := rfl, locals := rfl, loops := rfl }
  refine ⟨⟨D, ht.labelled hD hO ?_ hn hlanding, ?_, fun x hx => ⟨?_, (hK x hx).2⟩⟩,
    ht.encloses hD.splits hin⟩
  · rw [jumpDistance_distanceBytes hle hwide]
    have hlt : ip < d.program.tape.size := Tape.lt_of_mem_startsFrom hip
    have hpos : d.program.tape.size = d.position := rfl
    omega
  · rw [Draft.position, ← hn]
    exact congrArg D ht.differs.size
  · rcases (hK x hx).1 with hmem | hend
    · exact .inl ((ht.starts hD.splits).symm ▸ hmem)
    · exact .inr (hend.trans ht.differs.size.symm)

/-- Pointing an open jump to where the draft stands. -/
theorem patchHere (h : d.Stands env (insert (ip, n) O) K n) (hO : ∀ x ∈ O, x.1 ≠ ip) :
    Yields (d.patchHere ip) fun d' => d'.Stands env O K n ∧ d'.position = d.position ∧
      d'.arguments = d.arguments ∧ d'.locals = d.locals := by
  have hlt := h.lt_position (x := (ip, n)) (.inl rfl)
  obtain ⟨j, hj, hop⟩ : ∃ j, j ≠ .back ∧ d.tape.opcode? ip = some (.jump j false) := by
    obtain ⟨⟨D, hD, -⟩, -⟩ := h
    obtain ⟨-, j, first, second, hj, hr, -⟩ := hD.opened (ip, n) (.inl rfl)
    exact ⟨j, hj, hr.opcode⟩
  have hsize : ∀ op bytes, (d.overwrite ip op bytes).position = d.position := fun op bytes =>
    (d.overwrite_differsAt ip op bytes (.jump j false) rfl).size
  rw [Draft.patchHere, patch, hop]
  dsimp only at hlt ⊢
  rw [if_neg hj, if_neg (by omega)]
  split
  · rename_i hle
    exact .inl ⟨_, rfl, h.overwrite hO hj hop (by omega) fun _ => hle, hsize _ _, rfl, rfl⟩
  · split
    · rename_i hle
      exact .inl ⟨_, rfl, h.overwrite hO hj hop hle (by simp), hsize _ _, rfl, rfl⟩
    · exact .inr ⟨_, rfl, rfl⟩

end Stands

/-! ### Jumps back -/

/-- A jump back to a place with the depth that there is now. -/
theorem Stands.emitBack (h : d.Stands env O K n) {head : Nat} (hhead : (head, n) ∈ K) (n' : Nat) :
    Yields (d.emitBack head) fun d' => d'.Stands env O K n' ∧ d'.position = d.position + 3 ∧
      d'.arguments = d.arguments ∧ d'.locals = d.locals := by
  have hle : head ≤ d.position := by
    obtain ⟨⟨D, -, -, hK⟩, -⟩ := h
    rcases (hK _ hhead).1 with hmem | hend
    · exact (Tape.lt_of_mem_startsFrom hmem).le
    · exact hend.le
  unfold Draft.emitBack
  extract_lets ip distance
  have hdistance : distance = d.position - head := if_pos hle
  split
  · rename_i hlong
    let low := (distanceBytes distance).1
    let high := (distanceBytes distance).2
    have hbytes : jumpDistance (decide (255 < distance)) low high = d.position - head := by
      rw [← hdistance]
      refine jumpDistance_distanceBytes hlong fun hw => ?_
      simpa using hw
    let d' : Draft := { d.emit (.jump .back (255 < distance)) [low, high] with
      loops := d.loops ++ [⟨head, d.position⟩] }
    have hw : d.program.WrittenOn d'.program (.jump .back (255 < distance)) [low, high] :=
      { length := rfl
        tape := d.emit_tape _ _
        arguments := rfl, locals := rfl, literals := fun _ _ hl => hl
        pushed := fun _ _ hc => .inl hc, numbered := h.literals_le
        loops := by
          rw [Opcode.back?, List.getD_cons_zero, List.getD_cons_succ, List.getD_cons_zero, hbytes,
            show d.program.tape.size = d.position from rfl, Nat.sub_sub_self hle]
          exact List.map_append }
    refine .inl ⟨d', rfl, h.write hw Set.Subset.rfl (fun x hx => .inl hx) (by simp)
      fun D hn _ hK => ⟨rfl, trivial, by rintro ⟨⟩, ⟨0, 0, rfl, Nat.zero_le _, by rintro ⟨⟩⟩,
        fun j wide hj => ?_, by simp⟩, hw.size, rfl, rfl⟩
    cases hj
    obtain ⟨hplace, hD⟩ := hK _ hhead
    refine .inr ⟨head, ?_, ?_, hD.trans hn.symm⟩
    · have hr : d'.program.tape.Reads d.position (.jump .back (255 < distance)) low high := hw.reads
      rw [Tape.jumpTarget?, hr.distance, hbytes, if_pos rfl, if_pos (Nat.sub_le _ _),
        Nat.sub_sub_self hle]
    · obtain ⟨⟨D', hD', -⟩, -⟩ := h
      exact .inl (hw.mem_starts hD'.splits (hplace.imp_right fun hx => ⟨rfl, hx⟩))
  · exact .inr ⟨_, rfl, rfl⟩

/-! ### Variables -/

/-- A draft for the same frame, perhaps with further locals. -/
structure Widens (d d' : Draft) : Prop where
  arguments : d'.arguments = d.arguments
  locals : ∀ (i : Nat) v, d.locals[i]? = some v → d'.locals[i]? = some v

theorem Widens.of_eq (harguments : d'.arguments = d.arguments) (hlocals : d'.locals = d.locals) :
    d.Widens d' :=
  ⟨harguments, fun _ _ h => hlocals ▸ h⟩

theorem Widens.refl (d : Draft) : d.Widens d :=
  .of_eq rfl rfl

theorem Widens.trans {d'' : Draft} (h : d.Widens d') (h' : d'.Widens d'') : d.Widens d'' :=
  ⟨h'.arguments.trans h.arguments, fun i v hv => h'.locals i v (h.locals i v hv)⟩

theorem Widens.outline (h : d.Widens d') : d.outline.Le d'.outline := by
  refine ⟨congrArg Array.size h.arguments, ?_⟩
  by_contra hlt
  have hsize : d'.locals.size < d.locals.size := by
    simpa [Draft.outline, Program.outline, program] using hlt
  have hlast := h.locals _ _ (Array.getElem?_eq_getElem hsize)
  exact absurd (Array.getElem?_eq_some_iff.1 hlast).1 (lt_irrefl _)

/-- The frame that a draft is for may get further locals. -/
theorem Stands.widen (h : d.Stands env O K n) (htape : d'.tape = d.tape)
    (hliterals : d'.literals = d.literals) (hloops : d'.loops = d.loops) (hwidens : d.Widens d')
    (hslots : ∀ (i : Nat) v, d'.locals[i]? = some v → v.slot.toNat = i) :
    d'.Stands env O K n := by
  obtain ⟨⟨D, hD, hn, hK⟩, hin⟩ := h
  have hframes : Outlines.Le (d.outline :: env) (d'.outline :: env) :=
    .cons hwidens.outline (Outlines.Le.refl env)
  have htape' : d'.program.tape = d.program.tape := htape
  have hliterals' : d'.program.literals = d.program.literals := hliterals
  have hreach : ∀ i, d'.program.Reaches false i = d.program.Reaches false i := fun i => by
    rw [Program.Reaches, Program.Reaches, htape']
  refine ⟨⟨D, ⟨?_, hD.start, fun ip hip op first second hr => ?_, ?_, ?_, ?_, ?_, hslots⟩, ?_, ?_⟩,
    fun ip hip w first second b hr hl => ?_⟩
  · exact htape'.symm ▸ hD.splits
  · rw [htape'] at hip hr
    have hs := hD.suits ip hip op first second hr
    exact hs.transfer hr (htape'.symm ▸ hr) (hs.addresses.mono hframes)
      (fun _ l hl => ⟨l, hliterals'.symm ▸ hl, .same l⟩) (fun i hi => hreach i ▸ hi)
      (fun _ hx => hx) fun hop => (hs.returns hop).imp_right fun hend => absurd hend.1 (by simp)
  · rw [htape']
    exact hD.opened
  · rw [htape', hliterals']
    exact hD.pushed
  · exact hliterals'.symm ▸ hD.numbered
  · rw [htape']
    exact (congrArg _ hloops).trans hD.loops
  · rw [position, htape]
    exact hn
  · rw [htape]
    exact hK
  · rw [htape'] at hip hr
    rw [hliterals'] at hl
    obtain ⟨hneeds, hlexical⟩ := hin ip hip w first second b hr hl
    exact ⟨hneeds, hlexical.mono hframes⟩

/-- A variable that is merged has a local slot, which is that of the same declaration. -/
theorem Stands.mergeLocal (h : d.Stands env O K n) (v : Variable) :
    Yields (d.mergeLocal v) fun r => r.2.Stands env O K n ∧ r.2.position = d.position ∧
      d.Widens r.2 ∧ ∃ w, r.2.locals[r.1.toNat]? = some w ∧ w.sameAs v := by
  have hslots : ∀ (i : Nat) v, d.locals[i]? = some v → v.slot.toNat = i := by
    obtain ⟨⟨D, hD, -⟩, -⟩ := h
    exact hD.slots
  rw [Draft.mergeLocal]
  split
  · rename_i w hw
    have hsame : w.sameAs v := Array.find?_some (p := fun u : Variable => u.sameAs v) hw
    obtain ⟨i, hget⟩ := Array.getElem?_of_mem (Array.mem_of_find?_eq_some hw)
    refine .inl ⟨_, rfl, h, rfl, .refl _, w, ?_, hsame⟩
    rw [hslots i w hget]
    exact hget
  · split
    · exact .inr ⟨_, rfl, rfl⟩
    · rename_i hsize
      have htoNat : (UInt8.ofNat d.locals.size).toNat = d.locals.size := by
        rw [UInt8.toNat_ofNat']
        omega
      let w : Variable := ⟨v.name, .temporary, d.depth, UInt8.ofNat d.locals.size, v.origin⟩
      have hwidens : d.Widens { d with locals := d.locals.push w } :=
        ⟨rfl, fun i u hu => by
          rw [Array.getElem?_push_lt (Array.getElem?_eq_some_iff.1 hu).1]
          exact congrArg some (Array.getElem?_eq_some_iff.1 hu).2⟩
      refine .inl ⟨_, rfl, h.widen rfl rfl rfl hwidens fun i u hu => ?_, rfl, hwidens, w, ?_, ?_⟩
      · rw [Array.getElem?_push] at hu
        split at hu
        · rename_i hi
          cases hu
          exact htoNat.trans hi.symm
        · exact hslots i u hu
      · exact htoNat.symm ▸ Array.getElem?_push_size
      · simp [Variable.sameAs, w]

/-! ### Ends -/

theorem Complete.ends (h : d.Complete env op) (hne : env ≠ []) : d.program.Ends := by
  rcases h.leaves hne with rfl | rfl
  · exact .inl h.endsWith
  · exact .inr h.endsWith

/-- A complete draft can be finished. -/
theorem Complete.finish (h : d.Complete env op) :
    ∃ maxStack, d.finish = .ok { d.program with maxStack } := by
  obtain ⟨D, hD⟩ := h.labelled
  exact hD.make h.nonempty

end Draft

end Parley
