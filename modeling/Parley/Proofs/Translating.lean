import Parley.Proofs.Merging
import Parley.Proofs.Relocating
import Parley.Proofs.Splicing

/-!
# What splicing makes of a block

Splicing writes the instructions of a block into a draft one after another, each at the offset that
follows from the lengths of those before it (`Program.carriedTo`): the return at the end is left
out, a return out of the method into which the block is spliced loses its operand, and all others
keep their length. What an instruction becomes is told by the offsets of its own and of its target
(`Program.Carries`), so jumps land where the translation of their target is, whether their distance
fits into a byte or not.

While the walk is under way, forward jumps that have not come to their target yet are pending
(`Walk.Follows`); carrying one instruction over keeps the order (`Walk.Follows.next`), and so does
the whole walk (`Walk.Follows.carryAll`).

* `Walk.carry_carried`: what carrying one instruction over does to a walk;
* `Draft.Built.splices`: what splicing does to any draft, for any block that passed the check.
-/

namespace Parley

variable {p : Program Code} {m : SlotMap} {base ip i j : Nat} {op op' : Opcode}
  {first second first' second' : UInt8} {f : Nat → Nat} {pool pool' : Array (Literal Code)}

/-! ### Where instructions go -/

/-- The bytes that an instruction of a block has when it is carried over. -/
def Opcode.carriedSize (op : Opcode) (first : UInt8) : Nat :=
  match op with
  | .returnLocal => 0
  | .returnNonLocal => if first = 1 then 1 else 2
  | op => op.size

/-- The bytes that what is at an offset of a block has when it is carried over: none if no
    instruction starts there. -/
def Program.carriedSize (p : Program Code) (ip : Nat) : Nat :=
  if ip ∈ p.tape.starts then
    match p.tape.opcode? ip with
    | some op => op.carriedSize (p.tape.byteAt (ip + 1))
    | none => 0
  else 0

/-- Where an offset of a block is in a draft that the block is carried over to from `base` on. -/
def Program.carriedTo (p : Program Code) (base : Nat) : Nat → Nat
  | 0 => base
  | ip + 1 => p.carriedTo base ip + p.carriedSize ip

theorem Opcode.carriedSize_eq (h : op ≠ .returnLocal) (h' : op ≠ .returnNonLocal) :
    op.carriedSize first = op.size := by
  cases op <;> first | rfl | contradiction

theorem Opcode.carriedSize_pos (h : op ≠ .returnLocal) : 0 < op.carriedSize first := by
  by_cases h' : op = .returnNonLocal
  · subst h'
    simp only [carriedSize]
    split <;> omega
  · rw [carriedSize_eq h h']
    exact op.size_pos

namespace Program

theorem carriedSize_of_reads (hip : ip ∈ p.tape.starts) (hr : p.tape.Reads ip op first second) :
    p.carriedSize ip = op.carriedSize first := by
  rw [carriedSize, if_pos hip, hr.opcode]
  cases op with
  | returnNonLocal => rw [hr.first le_rfl]
  | _ => rfl

theorem carriedTo_zero : p.carriedTo base 0 = base :=
  rfl

theorem carriedTo_succ (ip : Nat) :
    p.carriedTo base (ip + 1) = p.carriedTo base ip + p.carriedSize ip :=
  rfl

theorem carriedTo_mono (h : i ≤ j) : p.carriedTo base i ≤ p.carriedTo base j := by
  induction h with
  | refl => exact le_rfl
  | step _ ih =>
    rw [carriedTo_succ]
    omega

theorem le_carriedTo (p : Program Code) (base ip : Nat) : base ≤ p.carriedTo base ip :=
  carriedTo_mono (Nat.zero_le ip)

/-- Instructions do not overlap where they go, either. -/
theorem carriedTo_apart (base : Nat) (hi : i ∈ p.tape.starts) (hr : p.tape.Reads i op first second)
    (hlt : i < j) : p.carriedTo base i + op.carriedSize first ≤ p.carriedTo base j := by
  rw [← carriedSize_of_reads hi hr, ← carriedTo_succ]
  exact carriedTo_mono hlt

/-- An instruction ends where the next one goes. -/
theorem carriedTo_next (hip : ip ∈ p.tape.starts) (hr : p.tape.Reads ip op first second) :
    p.carriedTo base (ip + op.size) = p.carriedTo base ip + op.carriedSize first := by
  -- Inside an instruction no other one starts.
  have hinside : ∀ k, k + 1 ≤ op.size →
      p.carriedTo base (ip + (k + 1)) = p.carriedTo base ip + op.carriedSize first := by
    intro k hk
    induction k with
    | zero => rw [Nat.zero_add, carriedTo_succ, carriedSize_of_reads hip hr]
    | succ k ih =>
      have hnot : ip + (k + 1) ∉ p.tape.starts := fun hmem => by
        have := Tape.apart hip hmem (by omega) hr.opcode
        omega
      rw [← Nat.add_assoc, carriedTo_succ, carriedSize, if_neg hnot, Nat.add_zero, ih (by omega)]
  obtain ⟨k, hk⟩ := Nat.exists_eq_add_one.2 op.size_pos
  rw [hk]
  exact hinside k hk.ge

end Program

/-! ### What instructions become -/

/-- A literal of the pool that stands for another one: a block only for itself. -/
def Literal.StandsFor (l' l : Literal Code) : Prop :=
  l' = l ∨ l'.sameAs l ∧ ∀ b, l ≠ .block b

/-- What an instruction of a block becomes where it is carried over to. `f` says where the offsets
    of the block go, and `pool` are the literals there. -/
inductive Program.Carries (p : Program Code) (m : SlotMap) (f : Nat → Nat)
    (pool : Array (Literal Code)) (ip : Nat) :
    Opcode → UInt8 → UInt8 → Opcode → UInt8 → UInt8 → Prop
  | access {op op' : Opcode} {slot level slot' level' : UInt8} :
      m.Redirects 0 op slot level op' slot' level' →
      Carries p m f pool ip op slot level op' slot' level'
  | closure {index index' : UInt8} {b b' : Code} : p.literals[index.toNat]? = some (.block b) →
      b.Relocated m 1 b' → pool[index'.toNat]? = some (.block b') →
      Carries p m f pool ip (.pushBlock true) index 0 (.pushBlock true) index' 0
  | literal {op : Opcode} {index index' : UInt8} {l l' : Literal Code} : op.hasLiteral →
      op ≠ .pushBlock true → p.literals[index.toNat]? = some l → pool[index'.toNat]? = some l' →
      l'.StandsFor l → Carries p m f pool ip op index 0 op index' 0
  | leaveHere : Carries p m f pool ip .returnNonLocal 1 0 .returnLocal 0 0
  | leave {level : UInt8} : 1 < level.toNat →
      Carries p m f pool ip .returnNonLocal level 0 .returnNonLocal (level - 1) 0
  | forward {j : Jump} {wide wide' : Bool} {low high low' high' : UInt8} : j ≠ .back →
      f ip + jumpDistance wide' low' high' = f (ip + jumpDistance wide low high) →
      Carries p m f pool ip (.jump j wide) low high (.jump j wide') low' high'
  | back {wide wide' : Bool} {low high low' high' : UInt8} :
      f (ip - jumpDistance wide low high) + jumpDistance wide' low' high' = f ip →
      Carries p m f pool ip (.jump .back wide) low high (.jump .back wide') low' high'
  | plain {op : Opcode} : op.size = 1 → op ≠ .returnLocal → Carries p m f pool ip op 0 0 op 0 0

namespace Program.Carries

/-- Further literals make no difference. -/
theorem mono (h : p.Carries m f pool ip op first second op' first' second')
    (hpool : ∀ (i : Nat) l, pool[i]? = some l → pool'[i]? = some l) :
    p.Carries m f pool' ip op first second op' first' second' := by
  cases h with
  | access h => exact .access h
  | closure hb hrelocated hb' => exact .closure hb hrelocated (hpool _ _ hb')
  | literal hop hne hl hl' hstands => exact .literal hop hne hl (hpool _ _ hl') hstands
  | leaveHere => exact .leaveHere
  | leave h => exact .leave h
  | forward hj h => exact .forward hj h
  | back h => exact .back h
  | plain hsize hne => exact .plain hsize hne

theorem size (h : p.Carries m f pool ip op first second op' first' second') :
    op'.size = op.carriedSize first := by
  cases h with
  | access h =>
    obtain ⟨hop, hop'⟩ := h.hasContextOperand
    rw [Opcode.size_of_hasContextOperand hop']
    cases op <;> first | rfl | cases hop
  | closure | leaveHere | forward | back => rfl
  | literal hop => cases op <;> first | rfl | cases hop
  | leave hlevel =>
    simp only [Opcode.carriedSize]
    rw [if_neg]
    · rfl
    · rintro rfl
      exact absurd hlevel (by decide)
  | plain hsize hne =>
    refine (Opcode.carriedSize_eq hne ?_).symm
    rintro rfl
    cases hsize

/-- A forward jump becomes one of its kind. -/
theorem jump {j : Jump} {wide : Bool}
    (h : p.Carries m f pool ip (.jump j wide) first second op' first' second') :
    ∃ wide', op' = .jump j wide' := by
  cases h with
  | access h => cases h.hasContextOperand.1
  | literal hop => cases hop
  | forward => exact ⟨_, rfl⟩
  | back => exact ⟨_, rfl⟩
  | plain hsize => cases hsize

end Program.Carries

/-! ### Writing on a draft -/

/-- A tape that starts with the bytes of another one. -/
theorem Tape.exists_append {t t' : Tape} (h : ∀ i < t.size, t'[i]? = t[i]?) :
    ∃ code, t' = t ++ code := by
  have hle : t.size ≤ t'.size := by
    by_contra hlt
    have hend := h t'.size (Nat.lt_of_not_le hlt)
    rw [Array.getElem?_eq_none le_rfl, eq_comm, Array.getElem?_eq_none_iff] at hend
    exact hlt hend
  refine ⟨t'.extract t.size, Array.ext_getElem? fun i => ?_⟩
  rw [Array.getElem?_append]
  split
  · rename_i hi
    exact h i hi
  · rw [Array.getElem?_extract]
    split
    · congr 1
      omega
    · rw [Array.getElem?_eq_none (by omega)]

/-- A draft that is written on. -/
structure Draft.Extends (d d' : Draft) : Prop where
  tape : ∀ i < d.position, d'.tape[i]? = d.tape[i]?
  arguments : d'.arguments = d.arguments
  locals : d'.locals = d.locals
  literals : ∀ (i : Nat) l, d.literals[i]? = some l → d'.literals[i]? = some l
  bound : d.literals.size ≤ 256 → d'.literals.size ≤ 256

namespace Draft

variable {d d' : Draft} {operands : List UInt8}

theorem Extends.refl (d : Draft) : d.Extends d :=
  ⟨fun _ _ => rfl, rfl, rfl, fun _ _ h => h, id⟩

/-- What is written is behind what was there. -/
theorem Extends.append (h : d.Extends d') : ∃ code, d'.tape = d.tape ++ code :=
  Tape.exists_append h.tape

theorem emit_extends (d : Draft) (op : Opcode) (operands : List UInt8) :
    d.Extends (d.emit op operands) where
  tape i hi := by rw [emit_tape, Array.getElem?_append_left hi]
  arguments := rfl
  locals := rfl
  literals _ _ h := h
  bound := id

theorem position_emit (d : Draft) (hn : operands.length + 1 = op.size) :
    (d.emit op operands).position = d.position + op.size := by
  rw [position, emit_tape, Tape.size_written hn, position]

theorem emit_reads (d : Draft) (hn : operands.length + 1 = op.size) :
    (d.emit op operands).tape.Reads d.position op (operands.getD 0 0) (operands.getD 1 0) :=
  d.emit_tape op operands ▸ Tape.reads_written d.tape hn

/-- An instruction is written with a literal, which is found where its operand says, or one that
    was there and counts as the same. -/
theorem emitLiteral_extends {l : Literal Code} (hd : d.literals.size ≤ 256) (hsize : op.size = 2)
    (h : d.emitLiteral op l = .ok d') : d.Extends d' ∧ d'.position = d.position + 2 ∧
      d'.loops = d.loops ∧ ∃ index l', d'.tape.Reads d.position op index 0 ∧
        d'.literals[index.toNat]? = some l' ∧ (l' = l ∨ l' ∈ d.literals ∧ l'.sameAs l) := by
  unfold emitLiteral at h
  rcases d.addLiteral_yields hd l with
    ⟨⟨index, d₁⟩, hr, pool, l', rfl, hpool, hl', hsame, hkeep, -⟩ |
    ⟨e, hr, -⟩
  · rw [hr] at h
    cases h
    have hn : [index].length + 1 = op.size := hsize.symm
    have hext := emit_extends { d with literals := pool } op [index]
    refine ⟨⟨hext.tape, rfl, rfl, hkeep, fun _ => hpool⟩, ?_, rfl, index, l', ?_, hl', hsame⟩
    · rw [position_emit _ hn, hsize]
      rfl
    · exact emit_reads { d with literals := pool } hn
  · rw [hr] at h
    cases h

end Draft

/-! ### Carrying an instruction over -/

/-- What carrying an instruction over does to a walk. -/
structure Walk.Carried (w w' : Walk) (p : Program Code) (m : SlotMap) (f : Nat → Nat) (ip : Nat)
    (op : Opcode) (first second : UInt8) : Prop where
  grows : w.draft.Extends w'.draft
  position : w'.draft.position = w.draft.position + op.carriedSize first
  /-- The instruction is there, if need be with a target that is yet to come. -/
  carried : op ≠ .returnLocal → ∃ op' first' second',
    w'.draft.tape.Reads w.draft.position op' first' second' ∧
      (p.Carries m f w'.draft.literals ip op first second op' first' second' ∨
        ∃ j wide, j ≠ .back ∧ op = .jump j wide ∧ op' = .jump j false ∧
          (ip + jumpDistance wide first second, w.draft.position) ∈ w'.forward)
  dropped : op = .returnLocal → ip + 1 = p.tape.size
  kept : ∀ a ∈ w.forward, a ∈ w'.forward
  forward : ∀ a ∈ w'.forward, a ∈ w.forward ∨ ∃ j wide, j ≠ .back ∧ op = .jump j wide ∧
    a = (ip + jumpDistance wide first second, w.draft.position)
  sorted : w.forward.Pairwise (fun x y => x.1 ≤ y.1) → w'.forward.Pairwise fun x y => x.1 ≤ y.1
  placed : w'.placed = w.placed
  loops : w'.backward = w.backward ∧ w'.draft.loops = w.draft.loops ∨ ∃ head,
    w.backward = (ip, head) :: w'.backward ∧
      w'.draft.loops = w.draft.loops ++ [⟨f head, w.draft.position⟩]

namespace Walk

variable {w w' : Walk} {operands : List UInt8}

namespace Carried

/-- An instruction is carried over as one that neither has a literal nor jumps. -/
theorem write (hn : operands.length + 1 = op'.size) (hne : op ≠ .returnLocal)
    (hc : p.Carries m f w.draft.literals ip op first second op' (operands.getD 0 0)
      (operands.getD 1 0)) (h : w.write op' operands = .ok w') :
    w.Carried w' p m f ip op first second := by
  cases h
  exact { grows := w.draft.emit_extends op' operands
          position := by rw [← hc.size]; exact w.draft.position_emit hn
          carried := fun _ => ⟨op', _, _, w.draft.emit_reads hn, .inl hc⟩
          dropped := fun h => absurd h hne
          kept := fun _ => id
          forward := fun _ => .inl
          sorted := id
          placed := rfl
          loops := .inl ⟨rfl, rfl⟩ }

/-- An instruction is carried over with a literal. -/
theorem writeLiteral {l : Literal Code} {next : Nat} (hd : w.draft.literals.size ≤ 256)
    (hop : op.hasLiteral)
    (hc : ∀ (d : Draft) index l', d.literals[index.toNat]? = some l' →
      (l' = l ∨ l' ∈ w.draft.literals ∧ l'.sameAs l) →
        p.Carries m f d.literals ip op first second op index 0)
    (h : { w with next }.writeLiteral op l = .ok w') :
    w.Carried w' p m f ip op first second := by
  have hsize : op.size = 2 := by cases op <;> first | rfl | cases hop
  have hcarried : op.carriedSize first = 2 := by cases op <;> first | rfl | cases hop
  obtain ⟨d, hd', rfl⟩ := Except.exists_of_map_eq_ok h
  obtain ⟨hgrows, hposition, hloops, index, l', hr, hl', hsame⟩ :=
    Draft.emitLiteral_extends hd hsize hd'
  exact { grows := hgrows
          position := hposition.trans (by rw [hcarried])
          carried := fun _ => ⟨op, index, 0, hr, .inl (hc d index l' hl' hsame)⟩
          dropped := by
            rintro rfl
            cases hop
          kept := fun _ => id
          forward := fun _ => .inl
          sorted := id
          placed := rfl
          loops := .inl ⟨rfl, hloops⟩ }

/-- A forward jump is carried over, and waits for its target. -/
theorem jump {j : Jump} {wide : Bool} (hj : j ≠ .back)
    (hr : p.tape.Reads ip (.jump j wide) first second) :
    w.Carried { w with
      draft := (w.draft.emitJump (.jump j wide)).2
      forward := insertAscending (ip + p.tape.distance ip wide, w.draft.position) w.forward }
      p m f ip (.jump j wide) first second := by
  have hmem := fun a => (insertAscending_perm (ip + p.tape.distance ip wide, w.draft.position)
    w.forward).mem_iff (a := a)
  rw [hr.distance] at hmem ⊢
  have hn : [(0 : UInt8), 0].length + 1 = (Opcode.jump j false).size := rfl
  exact { grows := w.draft.emit_extends (.jump j false) [0, 0]
          position := w.draft.position_emit hn
          carried := fun _ => ⟨.jump j false, 0, 0, w.draft.emit_reads hn,
            .inr ⟨j, wide, hj, rfl, rfl, (hmem _).2 (List.mem_cons_self ..)⟩⟩
          dropped := Opcode.noConfusion
          kept := fun a ha => (hmem a).2 (List.mem_cons_of_mem _ ha)
          forward := fun a ha => by
            rcases List.mem_cons.1 ((hmem a).1 ha) with rfl | ha
            · exact .inr ⟨j, wide, hj, rfl, rfl⟩
            · exact .inl ha
          sorted := insertAscending_pairwise _
          placed := rfl
          loops := .inl ⟨rfl, rfl⟩ }

/-- A jump back is carried over, to where its head is now. -/
theorem back {wide : Bool} (hposition : w.draft.position = p.carriedTo base ip)
    (hplaced : ∀ a ∈ w.placed, a.2 = p.carriedTo base a.1)
    (hr : p.tape.Reads ip (.jump .back wide) first second)
    (h : w.carryBack p ip wide = .ok w') :
    w.Carried w' p m (p.carriedTo base) ip (.jump .back wide) first second := by
  unfold carryBack at h
  split at h
  · cases h
  · rename_i jump head rest hbackward
    split at h
    · cases h
    · rename_i hmark
      obtain ⟨rfl, hhead⟩ : jump = ip ∧ ip - p.tape.distance ip wide = head := by
        simpa only [ne_eq, not_or, not_not] using hmark
      split at h
      · cases h
      · rename_i position hlookup
        obtain ⟨d, hd, rfl⟩ := Except.exists_of_map_eq_ok h
        have hat : position = p.carriedTo base head := by
          obtain ⟨l₁, l₂, hl, -⟩ := List.lookup_eq_some_iff.1 hlookup
          exact hplaced (head, position) (hl ▸ List.mem_append_right l₁ (List.mem_cons_self ..))
        have hle : position ≤ w.draft.position := by
          rw [hat, hposition]
          exact Program.carriedTo_mono (by omega)
        obtain ⟨wide', hlong, hshort, rfl⟩ := Draft.emitBack_cases hle hd
        have hn : [(Draft.distanceBytes (w.draft.position - position)).1,
            (Draft.distanceBytes (w.draft.position - position)).2].length + 1 =
              (Opcode.jump .back wide').size := rfl
        have hext := w.draft.emit_extends (.jump .back wide')
          [(Draft.distanceBytes (w.draft.position - position)).1,
            (Draft.distanceBytes (w.draft.position - position)).2]
        rw [hr.distance] at hhead
        refine { grows := ⟨hext.tape, rfl, rfl, fun _ _ => id, id⟩
                 position := w.draft.position_emit hn
                 carried := fun _ => ⟨.jump .back wide', _, _, w.draft.emit_reads hn,
                   .inl (.back ?_)⟩
                 dropped := Opcode.noConfusion
                 kept := fun _ => id
                 forward := fun _ => .inl
                 sorted := id
                 placed := rfl
                 loops := .inr ⟨head, hbackward, ?_⟩ }
        · rw [List.getD_cons_zero, List.getD_cons_succ, List.getD_cons_zero,
            Draft.jumpDistance_distanceBytes hlong hshort, hhead, ← hat, ← hposition]
          omega
        · rw [hat]

end Carried

/-- A literal that counts as the same as one of the block stands for it. -/
theorem standsFor_of_reach {l l' : Literal Code} (hn : Numbered (w.reach p) w.next)
    (hl : l ∈ p.literals) (h : l' = l ∨ l' ∈ w.draft.literals ∧ l'.sameAs l) : l'.StandsFor l := by
  rcases h with rfl | ⟨hl', hsame⟩
  · exact .inl rfl
  · cases l with
    | block b =>
      -- The numbers of codes tell them apart.
      cases l' with
      | block b' =>
        exact .inl (congrArg _ (hn.inj b' b (.inr ⟨_, hl', .self _⟩) (.inl ⟨_, hl, .self _⟩)
          (of_decide_eq_true hsame)))
      | _ => cases hsame
    | _ => exact .inr ⟨hsame, by simp⟩

/-! ### Kinds of instructions -/

namespace Carried

variable {last : Nat} (hr : p.tape.Reads ip op first second)
  (h : w.carry p m last ip op = .ok w')

/-- An access to a scope outside of the block is one level nearer. -/
theorem nearer (hop : op.hasContextOperand) (hz : second ≠ 0)
    (h : w.write op [first, second - 1] = .ok w') : w.Carried w' p m f ip op first second := by
  refine .write ?_ ?_ (.access (.outside hop (UInt8.pos_iff_ne_zero.2 hz))) h
  · rw [Opcode.size_of_hasContextOperand hop]
    rfl
  · rintro rfl
    cases hop

/-- An access to a variable of the block goes to the slot that the variable has now. -/
theorem redirected {slot? : Except CompileError UInt8} (hop : op.hasContextOperand)
    (hc : ∀ slot, slot? = .ok slot → m.Redirects 0 op first 0 op' slot 0)
    (h : (match slot? with
      | .error e => Except.error e
      | .ok slot => w.write op' [slot, 0]) = .ok w') : w.Carried w' p m f ip op first 0 := by
  split at h
  · cases h
  · rename_i slot
    have hredirects := hc slot rfl
    refine .write ?_ ?_ (.access hredirects) h
    · rw [Opcode.size_of_hasContextOperand hredirects.hasContextOperand.2]
      rfl
    · rintro rfl
      cases hop

include hr h

theorem access {place : Place} (hop : op = .push place ∨ op = .pop place) :
    w.Carried w' p m f ip op first second := by
  have hsize : op.size = 3 := by rcases hop with rfl | rfl <;> rfl
  have hfirst : p.tape.byteAt (ip + 1) = first := hr.first (by omega)
  have hsecond : p.tape.byteAt (ip + 2) = second := hr.second hsize.ge
  unfold carry at h
  rw [hfirst, hsecond] at h
  cases place with
  | temporary =>
    rcases hop with rfl | rfl <;>
    · dsimp only at h
      split at h
      · rename_i hz
        subst hz
        exact redirected rfl (fun slot hslot => .temporary (by simp) rfl hslot) h
      · rename_i hz
        exact nearer rfl hz h
  | argument =>
    rcases hop with rfl | rfl
    · dsimp only at h
      split at h
      · rename_i hz
        subst hz
        exact redirected rfl (fun slot hslot => .pushArgument rfl hslot) h
      · rename_i hz
        exact nearer rfl hz h
    · dsimp only at h
      split at h
      · rename_i hz
        subst hz
        exact redirected rfl (fun slot hslot => .popArgument rfl hslot) h
      · rename_i hz
        exact nearer rfl hz h
  | field =>
    rcases hop with rfl | rfl <;>
    · dsimp only at h
      split at h
      · cases h
      · rename_i hz
        exact nearer rfl hz h

/-- A block that is pushed with a context is rehomed. -/
theorem closure (hd : w.draft.literals.size ≤ 256) (hn : Numbered (w.reach p) w.next)
    (hop : op = .pushBlock true) : w.Carried w' p m f ip op first second := by
  subst hop
  obtain rfl : second = 0 := hr.noSecond (by decide)
  unfold carry at h
  rw [hr.first le_rfl] at h
  dsimp only at h
  split at h
  · cases h
  · rename_i b hb
    split at h
    · cases h
    · rename_i b' next hrehomed
      have hl : p.literals[first.toNat]? = some (.block b) := by
        unfold Program.blockLiteral Program.literal? at hb
        split at hb
        · rename_i hl
          cases hb
          exact hl
        · cases hb
      refine .writeLiteral hd rfl (fun d index l' hl' hsame => ?_) h
      obtain rfl : l' = .block b' := by
        rcases hsame with rfl | ⟨hin, hsame⟩
        · rfl
        · cases l' with
          | block c =>
            exact congrArg _ (eq_of_id_rehomed hn (Array.mem_of_getElem? hl) hrehomed hin
              (of_decide_eq_true hsame))
          | _ => cases hsame
      exact .closure hl (Code.rehomed_relocated hrehomed) hl'

/-- Any other instruction with a literal is written with the literal. -/
theorem literal (hd : w.draft.literals.size ≤ 256) (hn : Numbered (w.reach p) w.next)
    (hop : op.hasLiteral) (hne : op ≠ .pushBlock true) :
    w.Carried w' p m f ip op first second := by
  have hsize : op.size = 2 := by cases op <;> first | rfl | cases hop
  obtain rfl : second = 0 := hr.noSecond (by omega)
  obtain ⟨l, hl, hwrite⟩ : ∃ l, p.literals[first.toNat]? = some l ∧
      w.writeLiteral op l = .ok w' := by
    unfold carry at h
    rw [hr.first hsize.ge] at h
    cases op with
    | pushBlock withContext =>
      cases withContext with
      | true => exact absurd rfl hne
      | false =>
        dsimp only at h
        split at h
        · cases h
        · exact ⟨_, ‹_›, h⟩
    | pushConstant | pushGlobal | send _ =>
      dsimp only at h
      split at h
      · cases h
      · exact ⟨_, ‹_›, h⟩
    | _ => cases hop
  exact .writeLiteral hd hop (fun d index l' hl' hsame => .literal hop hne hl hl'
    (standsFor_of_reach hn (Array.mem_of_getElem? hl) hsame)) hwrite

/-- A return out of the method leaves one scope less, and is an ordinary one if it leaves none. -/
theorem leave (hop : op = .returnNonLocal) : w.Carried w' p m f ip op first second := by
  subst hop
  obtain rfl : second = 0 := hr.noSecond (by decide)
  unfold carry at h
  rw [hr.first le_rfl] at h
  dsimp only at h
  split at h
  · cases h
  · rename_i hz
    split at h
    · rename_i hone
      subst hone
      exact .write rfl Opcode.noConfusion .leaveHere h
    · rename_i hone
      have hz' : first.toNat ≠ 0 := fun h => hz (UInt8.toNat_inj.1 h)
      have hone' : first.toNat ≠ 1 := fun h => hone (UInt8.toNat_inj.1 h)
      exact .write rfl Opcode.noConfusion (.leave (by omega)) h

end Carried

/-- An instruction of one byte, other than a return, is written as it is. -/
theorem Carried.plain (hr : p.tape.Reads ip op first second) (hsize : op.size = 1)
    (hne : op ≠ .returnLocal) (h : w.write op [] = .ok w') :
    w.Carried w' p m f ip op first second := by
  obtain rfl : first = 0 := hr.noFirst (by omega)
  obtain rfl : second = 0 := hr.noSecond (by omega)
  exact .write (by rw [hsize]; rfl) hne (.plain hsize hne) h

/-- The return at the end of the block is left out. -/
theorem Carried.return (hip : ip ∈ p.tape.starts) (hp : p.tape.Splits)
    (hr : p.tape.Reads ip .returnLocal first second)
    (h : w.carry p m (p.tape.starts.getLastD 0) ip .returnLocal = .ok w') :
    w.Carried w' p m f ip .returnLocal first second := by
  unfold carry at h
  dsimp only at h
  split at h
  · rename_i hlast
    cases h
    exact { grows := .refl _
            position := rfl
            carried := fun h => absurd rfl h
            dropped := fun _ => hp.ends hip hr.opcode hlast
            kept := fun _ => id
            forward := fun _ => .inl
            sorted := id
            placed := rfl
            loops := .inl ⟨rfl, rfl⟩ }
  · cases h

/-- What carrying one instruction over does to a walk. -/
theorem carry_carried (hposition : w.draft.position = p.carriedTo base ip)
    (hplaced : ∀ a ∈ w.placed, a.2 = p.carriedTo base a.1) (hd : w.draft.literals.size ≤ 256)
    (hn : Numbered (w.reach p) w.next) (hip : ip ∈ p.tape.starts) (hp : p.tape.Splits)
    (hr : p.tape.Reads ip op first second)
    (h : w.carry p m (p.tape.starts.getLastD 0) ip op = .ok w') :
    w.Carried w' p m (p.carriedTo base) ip op first second := by
  cases op with
  | push place => exact .access hr h (.inl rfl)
  | pop place => exact .access hr h (.inr rfl)
  | pushBlock withContext =>
    cases withContext with
    | true => exact .closure hr h hd hn rfl
    | false => exact .literal hr h hd hn rfl (by decide)
  | pushConstant | pushGlobal | send _ => exact .literal hr h hd hn rfl Opcode.noConfusion
  | returnLocal => exact .return hip hp hr h
  | returnNonLocal => exact .leave hr h rfl
  | pushSelf | returnSelf | quickened _ => cases h
  | jump j wide =>
    cases j with
    | back => exact .back hposition hplaced hr h
    | always | test _ _ | greater =>
      cases h
      exact .jump Jump.noConfusion hr
  | halt | dup | dupSecond | pushNil | pushZero | pushOne | drop | step _ =>
    exact .plain hr rfl Opcode.noConfusion h

/-! ### The walk -/

/-- The loops of a block, each as its jump back and its head, in the order of the jumps. -/
def marks (p : Program Code) : List (Nat × Nat) :=
  p.loops.foldl (fun l mark => insertAscending (mark.jump, mark.head) l) []

/-- A walk that has come to an offset of a block, and has carried over into the draft `into` what
    is before it. Jumps that are pending wait for instructions from `late` on. -/
structure Follows (w : Walk) (p : Program Code) (m : SlotMap) (into : Draft) (ip late : Nat) :
    Prop where
  grows : into.Extends w.draft
  bound : w.draft.literals.size ≤ 256
  position : w.draft.position = p.carriedTo into.position ip
  carried : ∀ j ∈ p.tape.starts, j < ip → ∀ op first second, p.tape.Reads j op first second →
    op ≠ .returnLocal → ∃ op' first' second',
      w.draft.tape.Reads (p.carriedTo into.position j) op' first' second' ∧
        op'.size = op.carriedSize first ∧
        (p.Carries m (p.carriedTo into.position) w.draft.literals j op first second op' first'
            second' ∨
          ∃ k wide, k ≠ .back ∧ op = .jump k wide ∧ op' = .jump k false ∧
            (j + jumpDistance wide first second, p.carriedTo into.position j) ∈ w.forward)
  dropped : ∀ j ∈ p.tape.starts, j < ip → p.tape.opcode? j = some .returnLocal →
    j + 1 = p.tape.size
  forward : ∀ a ∈ w.forward, a.1 ∈ p.tape.starts ∧ late ≤ a.1 ∧ ∃ j ∈ p.tape.starts, j < ip ∧
    ∃ k wide first second, k ≠ .back ∧ p.tape.Reads j (.jump k wide) first second ∧
      a = (j + jumpDistance wide first second, p.carriedTo into.position j)
  sorted : w.forward.Pairwise fun x y => x.1 ≤ y.1
  placed : ∀ a ∈ w.placed, a.2 = p.carriedTo into.position a.1
  loops : ∃ past, marks p = past ++ w.backward ∧ past.Pairwise (fun x y => x.1 < y.1) ∧
    (∀ x ∈ past, x.1 < ip) ∧ w.draft.loops = into.loops ++ past.map fun x =>
      ⟨p.carriedTo into.position x.2, p.carriedTo into.position x.1⟩

namespace Follows

variable {into : Draft} {late : Nat}

/-- A jump that waits for the offset that the walk has come to gets there. -/
theorem patch {d d' : Draft} {rest : List (Nat × Nat)} {jump : Nat}
    (h : Follows { w with draft := d, forward := (ip, jump) :: rest } p m into ip ip)
    (hd : d.patchHere jump = .ok d') :
    Follows { w with draft := d', forward := rest } p m into ip ip := by
  obtain ⟨-, -, j, hj, hlt, k, wide, first, second, hk, hr, heq⟩ :=
    h.forward (ip, jump) (List.mem_cons_self ..)
  obtain ⟨htarget, rfl⟩ := Prod.mk.inj heq
  obtain ⟨op', low, high, hreads, hsize, hcarried⟩ :=
    h.carried j hj hlt _ _ _ hr Opcode.noConfusion
  -- What is written over is the jump, in some form.
  obtain ⟨narrow, rfl⟩ : ∃ narrow, op' = .jump k narrow := by
    rcases hcarried with hc | ⟨k', _, _, hop, rfl, -⟩
    · exact hc.jump
    · cases hop
      exact ⟨false, rfl⟩
  obtain ⟨k', narrow', wide', ho, -, hle, hlong, hshort, rfl⟩ := Draft.patch_cases hd
  obtain ⟨rfl, -⟩ : k' = k ∧ narrow' = narrow := by simpa using ho.symm.trans hreads.opcode
  have hposition : d.position = p.carriedTo into.position ip := h.position
  have hdiffers := d.overwrite_differsAt (p.carriedTo into.position j) (.jump k' wide')
    (Draft.distanceBytes (d.position - p.carriedTo into.position j)) (.jump k' narrow) rfl
  refine { grows := ⟨fun i hi => ?_, h.grows.arguments, h.grows.locals, h.grows.literals,
             h.grows.bound⟩
           bound := h.bound
           position := hdiffers.size.trans h.position
           carried := fun i hi hlt' op first' second' hr' hne => ?_
           dropped := h.dropped
           forward := fun a ha => h.forward a (List.mem_cons_of_mem _ ha)
           sorted := (List.pairwise_cons.1 h.sorted).2
           placed := h.placed
           loops := h.loops }
  · exact (hdiffers.elsewhere i (.inl (hi.trans_le (p.le_carriedTo into.position j)))).trans
      (h.grows.tape i hi)
  · by_cases hij : i = j
    · subst hij
      obtain ⟨rfl, rfl, rfl⟩ := hr.unique hr'
      refine ⟨.jump k' wide', _, _, d.overwrite_reads hreads.fits _ _ rfl, rfl,
        .inl (.forward hk ?_)⟩
      rw [Draft.jumpDistance_distanceBytes hlong hshort, ← htarget, ← hposition]
      omega
    · obtain ⟨op', low', high', hreads', hsize', hcarried'⟩ := h.carried i hi hlt' _ _ _ hr' hne
      -- The two instructions are apart.
      have hapart : p.carriedTo into.position i + op'.size ≤ p.carriedTo into.position j ∨
          p.carriedTo into.position j + 3 ≤ p.carriedTo into.position i := by
        rw [hsize']
        rcases Nat.lt_or_gt_of_ne hij with hlt | hgt
        · exact .inl (Program.carriedTo_apart _ hi hr' hlt)
        · exact .inr (Program.carriedTo_apart _ hj hr hgt)
      have hpos := op'.size_pos
      refine ⟨op', low', high', hreads'.congr hdiffers.size.ge fun x hx hx' =>
        hdiffers.elsewhere x ?_, hsize', hcarried'.imp_right ?_⟩
      · have : (Opcode.jump k' narrow).size = 3 := rfl
        omega
      · rintro ⟨k, wide, hk, hop, hop', hmem⟩
        refine ⟨k, wide, hk, hop, hop', (List.mem_cons.1 hmem).resolve_left fun heq => ?_⟩
        have := (Prod.mk.inj heq).2
        omega

/-- What waits for the offset that the walk has come to gets there. -/
theorem arrive {d d' : Draft} {l l' : List (Nat × Nat)}
    (h : Follows { w with draft := d, forward := l } p m into ip ip)
    (hr : Walk.arrive ip d l = .ok (l', d')) :
    Follows { w with draft := d', forward := l' } p m into ip (ip + 1) := by
  induction l generalizing d with
  | nil =>
    cases hr
    exact { h with forward := fun a ha => by cases ha }
  | cons a rest ih =>
    obtain ⟨target, jump⟩ := a
    rw [Walk.arrive] at hr
    split at hr
    -- Nothing waits for this offset, since all others wait for later ones.
    · rename_i hlt
      cases hr
      refine { h with forward := fun a ha => ?_ }
      obtain ⟨hmem, -, hfrom⟩ := h.forward a ha
      refine ⟨hmem, ?_, hfrom⟩
      rcases List.mem_cons.1 ha with rfl | ha
      · exact hlt
      · exact Nat.succ_le_of_lt (hlt.trans_le ((List.pairwise_cons.1 h.sorted).1 a ha))
    · split at hr
      · cases hr
      · obtain rfl : target = ip := by omega
        split at hr
        · cases hr
        · rename_i d₁ hd
          exact ih (h.patch hd) hr

/-- The heads at the offset that the walk has come to are where the draft stands. -/
theorem place {heads : List Nat} {placed : List (Nat × Nat)} (h : w.Follows p m into ip late)
    (hr : Walk.place ip w.draft.position w.placed w.heads = .ok (heads, placed)) :
    Follows { w with heads, placed } p m into ip late := by
  suffices hplaced : ∀ a ∈ placed, a.2 = p.carriedTo into.position a.1 from
    { h with placed := hplaced }
  have hall := h.placed
  generalize w.placed = before at hr hall
  generalize w.heads = waiting at hr
  induction waiting generalizing before with
  | nil =>
    cases hr
    exact hall
  | cons head rest ih =>
    rw [Walk.place] at hr
    split at hr
    · cases hr
      exact hall
    · split at hr
      · cases hr
      · obtain rfl : head = ip := by omega
        refine ih _ (fun a ha => ?_) hr
        rcases List.mem_cons.1 ha with rfl | ha
        · exact h.position
        · exact hall a ha

/-- When an instruction has been carried over, the walk has come to the next one. -/
theorem next (h : w.Follows p m into ip (ip + 1)) (hip : ip ∈ p.tape.starts)
    (hr : p.tape.Reads ip op first second)
    (htarget : ∀ j wide, j ≠ .back → op = .jump j wide →
      ip + jumpDistance wide first second ∈ p.tape.starts ∧ ip <
        ip + jumpDistance wide first second)
    (hc : w.Carried w' p m (p.carriedTo into.position) ip op first second) :
    w'.Follows p m into (ip + op.size) (ip + op.size) := by
  have hpos := op.size_pos
  have hposition := h.position
  have hle := p.le_carriedTo into.position
  -- An instruction before the next one is this one, or one before it.
  have hcases : ∀ j ∈ p.tape.starts, j < ip + op.size → j = ip ∨ j < ip := fun j hj hlt => by
    by_contra hnot
    have := Tape.apart hip hj (by omega) hr.opcode
    omega
  refine { grows := ⟨fun i hi => ?_, hc.grows.arguments.trans h.grows.arguments,
             hc.grows.locals.trans h.grows.locals,
             fun i l hl => hc.grows.literals i l (h.grows.literals i l hl), fun hb =>
               hc.grows.bound (h.grows.bound hb)⟩
           bound := hc.grows.bound h.bound
           position := ?_
           carried := fun j hj hlt op₁ first₁ second₁ hr₁ hne => ?_
           dropped := fun j hj hlt ho => ?_
           forward := fun a ha => ?_
           sorted := hc.sorted h.sorted
           placed := hc.placed ▸ h.placed
           loops := ?_ }
  · exact (hc.grows.tape i (by have := hle ip; omega)).trans (h.grows.tape i hi)
  · rw [hc.position, hposition, Program.carriedTo_next hip hr]
  · rcases hcases j hj hlt with rfl | hlt
    · obtain ⟨rfl, rfl, rfl⟩ := hr.unique hr₁
      obtain ⟨op', first', second', hreads, hor⟩ := hc.carried hne
      rw [hposition] at hreads hor
      refine ⟨op', first', second', hreads, ?_, hor⟩
      rcases hor with hcarries | ⟨k, wide, -, rfl, rfl, -⟩
      · exact hcarries.size
      · rfl
    · obtain ⟨op', first', second', hreads, hsize, hor⟩ := h.carried j hj hlt _ _ _ hr₁ hne
      have hapart := Program.carriedTo_apart into.position hj hr₁ hlt
      refine ⟨op', first', second', hreads.congr ?_ fun x hx hx' => hc.grows.tape x ?_, hsize,
        hor.imp (·.mono hc.grows.literals) ?_⟩
      · have : w'.draft.position = w.draft.position + op.carriedSize first := hc.position
        simp only [Draft.position] at this
        omega
      · omega
      · rintro ⟨k, wide, hk, hop, hop', hmem⟩
        exact ⟨k, wide, hk, hop, hop', hc.kept _ hmem⟩
  · rcases hcases j hj hlt with rfl | hlt
    · exact hc.dropped (Option.some.inj (hr.opcode.symm.trans ho))
    · exact h.dropped j hj hlt ho
  · rcases hc.forward a ha with ha | ⟨k, wide, hk, rfl, rfl⟩
    · obtain ⟨hmem, hlt, j, hj, hji, hfrom⟩ := h.forward a ha
      exact ⟨hmem, Tape.apart hip hmem hlt hr.opcode, j, hj, by omega, hfrom⟩
    · obtain ⟨hmem, hlt⟩ := htarget k wide hk rfl
      refine ⟨hmem, Tape.apart hip hmem hlt hr.opcode, ip, hip, by omega, k, wide, first, second,
        hk, hr, ?_⟩
      rw [hposition]
  · obtain ⟨past, hmarks, hpairwise, hpast, hloops⟩ := h.loops
    rcases hc.loops with ⟨hbackward, hl⟩ | ⟨head, hbackward, hl⟩
    · exact ⟨past, by rw [hmarks, hbackward], hpairwise, fun x hx => by have := hpast x hx; omega,
        hl.trans hloops⟩
    · refine ⟨past ++ [(ip, head)], by rw [hmarks, hbackward, List.append_assoc]; rfl,
        List.pairwise_append.2 ⟨hpairwise, List.pairwise_singleton _ _, fun x hx y hy => ?_⟩,
        fun x hx => ?_, ?_⟩
      · rw [List.mem_singleton.1 hy]
        exact hpast x hx
      · rcases List.mem_append.1 hx with hx | hx
        · have := hpast x hx
          omega
        · rw [List.mem_singleton.1 hx]
          dsimp only
          omega
      · rw [hl, hloops, List.map_append, List.append_assoc, hposition]
        rfl

/-- An instruction of a block that passed the check is carried over. -/
theorem advance {arguments locals bound : Nat} {depths : Array (Option Nat)}
    (h : w.Follows p m into ip ip)
    (hp : p.tape.Checked p.literals arguments locals depths bound)
    (hn : Numbered (w.reach p) w.next) (hip : ip ∈ p.tape.starts) (ho : p.tape.opcode? ip = some op)
    (hr : w.advance p m (p.tape.starts.getLastD 0) ip = .ok w') :
    w'.Follows p m into (ip + op.size) (ip + op.size) := by
  obtain ⟨first, second, hreads⟩ := hp.splits.reads_at hip ho
  rw [Walk.advance] at hr
  split at hr
  · cases hr
  · rename_i forward draft harrive
    split at hr
    · cases hr
    · rename_i heads placed hplace
      rw [ho] at hr
      have h₁ : Follows { w with draft, forward, heads, placed } p m into ip (ip + 1) :=
        (h.arrive harrive).place hplace
      have hreach : reach { w with draft, forward, heads, placed } p = w.reach p := by
        rw [reach, reach, arrive_literals harrive]
      refine h₁.next hip hreads (fun j wide hj hop => ?_)
        (carry_carried h₁.position h₁.placed h₁.bound (hreach ▸ hn) hip hp.splits hreads hr)
      -- The check has made sure that the target is a later instruction.
      subst hop
      obtain ⟨target, hmem, htarget⟩ := hp.jumpTarget hip ho
      rw [Tape.jumpTarget?, if_neg hj, Option.ite_none_right_eq_some, Option.some.injEq,
        hreads.distance] at htarget
      obtain ⟨hpos, rfl⟩ := htarget
      exact ⟨hmem, by omega⟩

/-- The walk goes over the whole block. -/
theorem carryAll {arguments locals bound : Nat} {depths : Array (Option Nat)}
    (h : w.Follows p m into ip ip)
    (hp : p.tape.Checked p.literals arguments locals depths bound)
    (hn : Numbered (w.reach p) w.next) (hip : p.tape.Place ip)
    (hr : w.carryAll p m (p.tape.starts.getLastD 0) (p.tape.startsFrom ip) = .ok w') :
    w'.Follows p m into p.tape.size p.tape.size := by
  induction ip using Tape.startsFrom.induct p.tape generalizing w with
  | case1 ip hlt op hop _ ih =>
    have hmem : ip ∈ p.tape.starts := hip.resolve_right hlt.ne
    rw [Tape.startsFrom_of_opcode hlt hop, Walk.carryAll] at hr
    split at hr
    · cases hr
    · rename_i w₁ hadvance
      exact ih (h.advance hp hn hmem hop hadvance) ((advance_grows 0 hadvance).numbered hn)
        (hp.splits.next hmem hop) hr
  | case2 ip hlt hop =>
    obtain ⟨op, hop', -⟩ := hp.splits ip (hip.resolve_right hlt.ne)
    rw [hop] at hop'
    cases hop'
  | case3 ip hge =>
    obtain rfl : ip = p.tape.size :=
      hip.resolve_left fun hmem => hge (Tape.lt_of_mem_startsFrom hmem)
    rw [Tape.startsFrom, dif_neg hge] at hr
    cases hr
    exact h

/-- At the end of the block nothing is pending. -/
theorem finish {last : Nat} {d : Draft} (h : w.Follows p m into p.tape.size p.tape.size)
    (hr : w.finish p last = .ok d) : d = w.draft ∧ w.forward = [] ∧ w.backward = [] := by
  have hforward : w.forward = [] := List.eq_nil_iff_forall_not_mem.2 fun a ha => by
    obtain ⟨hmem, hge, -⟩ := h.forward a ha
    have := Tape.lt_of_mem_startsFrom hmem
    omega
  rw [Walk.finish, hforward] at hr
  simp only [land] at hr
  split at hr
  · cases hr
  · cases hr
  · rename_i hbackward _
    cases hr
    exact ⟨rfl, hforward, hbackward⟩

/-- When no jump is pending, all that the walk has come by is carried over. -/
theorem settled (h : w.Follows p m into ip late) (hf : w.forward = []) (hj : j ∈ p.tape.starts)
    (hlt : j < ip) (hr : p.tape.Reads j op first second) (hne : op ≠ .returnLocal) :
    ∃ op' first' second', w.draft.tape.Reads (p.carriedTo into.position j) op' first' second' ∧
      p.Carries m (p.carriedTo into.position) w.draft.literals j op first second op' first'
          second' ∧
        p.carriedTo into.position (j + op.size) = p.carriedTo into.position j + op'.size := by
  obtain ⟨op', first', second', hreads, hsize, hor⟩ := h.carried j hj hlt op first second hr hne
  refine ⟨op', first', second', hreads, hor.resolve_right ?_, ?_⟩
  · rintro ⟨k, wide, -, -, -, hmem⟩
    rw [hf] at hmem
    cases hmem
  · rw [Program.carriedTo_next hj hr, hsize]

/-- Instructions keep their order, since only the return at the end is left out. -/
theorem increasing (h : w.Follows p m into p.tape.size late) (hp : p.tape.Splits)
    (hi : i ∈ p.tape.starts) (hj : j ∈ p.tape.starts) (hij : i < j) :
    p.carriedTo into.position i < p.carriedTo into.position j := by
  obtain ⟨op, first, second, hr⟩ := hp.reads hi
  have hapart := Program.carriedTo_apart into.position hi hr hij
  have hpos : 0 < op.carriedSize first := by
    refine Opcode.carriedSize_pos ?_
    rintro rfl
    have := h.dropped i hi (Tape.lt_of_mem_startsFrom hi) hr.opcode
    have := Tape.lt_of_mem_startsFrom hj
    omega
  omega

/-- When no loop is pending, the draft has the images of the loops of the block, in the order of
    their jumps back. -/
theorem images (h : w.Follows p m into ip late) (hb : w.backward = []) :
    ∃ l : List LoopMark, l.Perm p.loops ∧ l.Pairwise (fun x y => x.jump < y.jump) ∧
      w.draft.loops = into.loops ++ l.map fun mark =>
        ⟨p.carriedTo into.position mark.head, p.carriedTo into.position mark.jump⟩ := by
  obtain ⟨past, hmarks, hsorted, -, hloops⟩ := h.loops
  rw [hb, List.append_nil] at hmarks
  have hperm := foldl_insertAscending_perm
    (fun mark : LoopMark => (mark.jump, mark.head)) p.loops []
  refine ⟨past.map fun x => ⟨x.2, x.1⟩, ?_, List.pairwise_map.2 hsorted, ?_⟩
  · rw [← hmarks, marks]
    simpa [Function.comp_def] using hperm.map fun x : Nat × Nat => (⟨x.2, x.1⟩ : LoopMark)
  · rw [hloops, List.map_map]
    rfl

end Follows

/-- A walk starts with nothing carried over and nothing pending. -/
theorem start_follows {into : Draft} (p : Program Code) (m : SlotMap) (next : Nat)
    (h : into.literals.size ≤ 256) : (start into p next).Follows p m into 0 0 where
  grows := .refl _
  bound := h
  position := Program.carriedTo_zero.symm
  carried := fun j _ hlt => absurd hlt (Nat.not_lt_zero j)
  dropped := fun j _ hlt => absurd hlt (Nat.not_lt_zero j)
  forward := fun a ha => by cases ha
  sorted := .nil
  placed := fun a ha => by cases ha
  loops := ⟨[], rfl, .nil, by simp, by simp [start]⟩

end Walk

/-! ### Splicing -/

/-- The instructions that set locals to nil. -/
def Tape.clearing (slots : List UInt8) : Tape :=
  (slots.flatMap fun slot => [Opcode.pushNil.byte, (Opcode.pop .temporary).byte, slot, 0]).toArray

/-- Where the offsets of a block go when it is spliced into a draft: the first one behind the
    instructions that set the locals of the block to nil. -/
def Draft.placing (d : Draft) (p : Program Code) (ip : Nat) : Nat :=
  p.carriedTo (d.position + 4 * p.locals.size) ip

/-- A program that its parts make, the check included. -/
def Program.Verified (p : Program Code) : Prop :=
  Program.make p.tape p.literals p.arguments p.locals p.loops = .ok p

theorem Program.Verified.of_stackBound (h : (p.tape.stackBound p.literals p.arguments.size
    p.locals.size).toOption = some p.maxStack) : p.Verified := by
  rw [Verified, Program.make]
  cases hbound : p.tape.stackBound p.literals p.arguments.size p.locals.size with
  | error e =>
    rw [hbound] at h
    cases h
  | ok maxStack =>
    rw [hbound] at h
    cases h
    rfl

/-- What splicing a block does to a draft, where `m` are the slots of its variables. -/
structure Draft.Splices (d : Draft) (p : Program Code) (m : SlotMap) (d' : Draft) : Prop where
  arguments : d'.arguments = d.arguments
  locals : ∀ (i : Nat) v, d.locals[i]? = some v → d'.locals[i]? = some v
  literals : ∀ (i : Nat) l, d.literals[i]? = some l → d'.literals[i]? = some l
  houses : m.Houses p d.locals d'.locals
  /-- The bytes that were there stay. Behind them the locals of the block are set to nil. -/
  tape : ∃ code, d'.tape = d.tape ++ Tape.clearing m.locals ++ code
  /-- Then come the instructions of the block, one after another. -/
  carried : ∀ ip ∈ p.tape.starts, ∀ op first second, p.tape.Reads ip op first second →
    op ≠ .returnLocal → ∃ op' first' second',
      d'.tape.Reads (d.placing p ip) op' first' second' ∧
        p.Carries m (d.placing p) d'.literals ip op first second op' first' second' ∧
          d.placing p (ip + op.size) = d.placing p ip + op'.size
  /-- Of the return at the end nothing is left. -/
  dropped : ∀ ip ∈ p.tape.starts, p.tape.opcode? ip = some .returnLocal →
    ip + 1 = p.tape.size ∧ d.placing p (ip + 1) = d.placing p ip
  increasing : ∀ i ∈ p.tape.starts, ∀ j ∈ p.tape.starts, i < j → d.placing p i < d.placing p j
  position : d.placing p p.tape.size = d'.position
  loops : ∃ marks : List LoopMark, marks.Perm p.loops ∧
    marks.Pairwise (fun x y => x.jump < y.jump) ∧
    d'.loops = d.loops ++ marks.map fun mark => ⟨d.placing p mark.head, d.placing p mark.jump⟩

namespace Draft

variable {d d' : Draft}

theorem clearLocals_eq (d : Draft) (slots : List UInt8) :
    d.clearLocals slots = { d with tape := d.tape ++ Tape.clearing slots } := by
  rw [clearLocals]
  induction slots generalizing d with
  | nil => simp [Tape.clearing]
  | cons slot rest ih =>
    rw [List.foldl_cons, ih]
    simp [emit, Tape.clearing, List.flatMap_cons]

theorem position_clearLocals (d : Draft) (slots : List UInt8) :
    (d.clearLocals slots).position = d.position + 4 * slots.length := by
  rw [clearLocals_eq, position, position, Array.size_append]
  congr 1
  simp [Tape.clearing, List.length_flatMap, Nat.mul_comm]

/-- Splicing walks over the whole block, behind the instructions that set its locals to nil. The
    numbers of codes have to tell them apart, those from `next` on being free. -/
theorem splice_follows {c : Code} {next next' arguments locals bound : Nat}
    {depths : Array (Option Nat)} (hd : d.literals.size ≤ 256)
    (hchecked : c.program.tape.Checked c.program.literals arguments locals depths bound)
    (hn : Numbered (parts d.literals ∪ c.parts) next) (h : d.splice c next = .ok (d', next')) :
    ∃ m d₁ w, d.mergeBlock c.program = .ok (m, d₁) ∧
      Walk.Follows w c.program m (d₁.clearLocals m.locals) c.program.tape.size c.program.tape.size ∧
        w.draft = d' ∧ w.forward = [] ∧ w.backward = [] := by
  rw [Draft.splice] at h
  dsimp only at h
  split at h
  · cases h
  · rename_i m d₁ hmerge
    split at h
    · cases h
    · rename_i w hcarry
      split at h
      · cases h
      · rename_i d₂ hfinish
        cases h
        have hliterals : (d₁.clearLocals m.locals).literals = d.literals :=
          (d₁.clearLocals_literals m.locals).trans (mergeBlock_literals hmerge)
        have hnumbered : Numbered ((Walk.start (d₁.clearLocals m.locals) c.program next).reach
            c.program) next := by
          refine hn.mono ?_
          rw [Walk.reach, Walk.start, hliterals, Set.union_comm, c.parts_eq]
          exact Set.union_subset_union_right _ (Set.subset_insert _ _)
        have hend := (Walk.start_follows c.program m next (hliterals ▸ hd)).carryAll hchecked
          hnumbered (.inl (Tape.mem_startsFrom_self hchecked.nonempty)) hcarry
        obtain ⟨hdraft, hforward, hbackward⟩ := hend.finish hfinish
        exact ⟨m, d₁, w, hmerge, hend, hdraft.symm, hforward, hbackward⟩

/-- Splicing a block that passed the check into a draft that was made by writing, whatever loops
    the block is said to have: the bytes, literals and variables of the draft stay, the variables
    of the block have slots, its locals are set to nil, and its instructions follow, with jumps to
    where their targets are now. The numbers of codes have to tell them apart, those from `next`
    on being free. -/
theorem Built.splices {c : Code} {next next' : Nat} (hd : d.Built) (hp : c.program.Verified)
    (hn : Numbered (parts d.literals ∪ c.parts) next) (h : d.splice c next = .ok (d', next')) :
    ∃ m, d.Splices c.program m d' := by
  obtain ⟨⟨depths, bound, hchecked⟩, -⟩ := Program.make_eq hp
  obtain ⟨m, d₁, w, hmerge, hend, rfl, hforward, hbackward⟩ :=
    splice_follows hd.literals_le hchecked hn h
  obtain ⟨hmerges, hhouses⟩ := mergeBlock_houses hd hmerge
  have hliterals : (d₁.clearLocals m.locals).literals = d.literals :=
    (d₁.clearLocals_literals m.locals).trans (mergeBlock_literals hmerge)
  have hposition : (d₁.clearLocals m.locals).position =
      d.position + 4 * c.program.locals.size := by
    rw [position_clearLocals, hhouses.locals, position, hmerges.rest]
    rfl
  have hplacing : d.placing c.program =
      c.program.carriedTo (d₁.clearLocals m.locals).position := by
    funext ip
    rw [placing, hposition]
  obtain ⟨harguments, hlocals⟩ := d₁.clearLocals_variables m.locals
  refine ⟨m, ?_, ?_, ?_, ?_, ?_, fun ip hip op first second hr hne => ?_,
    fun ip hip ho => ?_, fun i hi j hj hij => ?_, ?_, ?_⟩
  · rw [hend.grows.arguments, harguments, hmerges.rest]
  · rw [hend.grows.locals, hlocals]
    exact hmerges.locals
  · exact hliterals ▸ hend.grows.literals
  · rw [hend.grows.locals, hlocals]
    exact hhouses
  · -- What is there beyond the start of the walk is what it has written.
    obtain ⟨code, hcode⟩ := hend.grows.append
    exact ⟨code, by rw [hcode, clearLocals_eq, hmerges.rest]⟩
  · rw [hplacing]
    exact hend.settled hforward hip (Tape.lt_of_mem_startsFrom hip) hr hne
  · obtain ⟨first, second, hr⟩ := hchecked.splits.reads_at hip ho
    exact ⟨hend.dropped ip hip (Tape.lt_of_mem_startsFrom hip) ho,
      Program.carriedTo_next hip hr⟩
  · rw [hplacing]
    exact hend.increasing hchecked.splits hi hj hij
  · rw [hplacing, hend.position]
  · rw [hplacing, show d.loops = (d₁.clearLocals m.locals).loops by
      rw [clearLocals_eq, hmerges.rest]]
    exact hend.images hbackward

end Draft

/-- A block with an argument and a local that counts down to it in a loop, unless it returns from
    the method in the middle of it. -/
def loopingBlock : Code :=
  .mk 4 "value:" none true
    { tape := #[4, 1, 0, 15, 0, 0, 3, 0, 0, 29, 15, 0, 3, 0, 1, 29, 6, 0, 11, 21, 1, 31, 15, 0, 11,
        20]
      literals := #[]
      arguments := #[⟨"[]", .argument, 1, 0, 3⟩, ⟨"limit", .argument, 1, 1, 3⟩]
      locals := #[⟨"count", .temporary, 1, 0, 3⟩]
      maxStack := 1
      loops := [⟨6, 21⟩] }

/-- A method with one local, which has been set to zero. -/
def zeroingDraft : Draft :=
  ({ Draft.empty 2 0 with locals := #[⟨"n", .temporary, 0, 0, 2⟩] }.emit .pushZero []).emit
    (.pop .temporary) [0, 0]

/-- In the middle of the loop a return has one byte less, and the jumps over it are shorter. -/
theorem Draft.Built.splices_loopingBlock : ∃ d' next' m,
    zeroingDraft.splice loopingBlock 5 = .ok (d', next') ∧
      d'.tape = #[12, 15, 0, 0, 11, 15, 2, 0, 3, 1, 0, 15, 2, 0, 3, 2, 0, 29, 14, 0, 3, 0, 0, 29, 5,
        0, 11, 20, 31, 14, 0, 11] ∧ zeroingDraft.Splices loopingBlock.program m d' := by
  have hlocal : (Draft.empty 2 0).addLocal "n" =
      .ok { Draft.empty 2 0 with locals := #[⟨"n", .temporary, 0, 0, 2⟩] } := rfl
  have hbuilt : zeroingDraft.Built :=
    .emit (.pop .temporary) [0, 0] (.emit .pushZero [] (.addLocal (.empty 2 0) hlocal))
  have hverified : loopingBlock.program.Verified := .of_stackBound (by decide +kernel)
  have hparts : parts zeroingDraft.literals ∪ loopingBlock.parts = {.block loopingBlock} := by
    rw [Code.parts_eq, show parts zeroingDraft.literals = ∅ from parts_empty,
      show parts loopingBlock.program.literals = ∅ from parts_empty]
    simp
  have hnumbered : Numbered (parts zeroingDraft.literals ∪ loopingBlock.parts) 5 := by
    rw [hparts]
    refine ⟨fun c hc => ?_, fun c d hc hd _ => ?_⟩
    · cases hc
      decide
    · cases hc
      cases hd
      rfl
  have htape : (zeroingDraft.splice loopingBlock 5).toOption.map (·.1.tape) = some #[12, 15, 0, 0,
      11, 15, 2, 0, 3, 1, 0, 15, 2, 0, 3, 2, 0, 29, 14, 0, 3, 0, 0, 29, 5, 0, 11, 20, 31, 14, 0,
      11] := by
    decide +kernel
  cases hr : zeroingDraft.splice loopingBlock 5 with
  | error e =>
    rw [hr] at htape
    cases htape
  | ok r =>
    rw [hr] at htape
    obtain ⟨m, hm⟩ := Draft.Built.splices hbuilt hverified hnumbered hr
    exact ⟨r.1, r.2, m, rfl, Option.some.inj htape, hm⟩

end Parley
