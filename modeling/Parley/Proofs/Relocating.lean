import Parley.Proofs.Numbering
import Parley.Proofs.Reading

/-!
# What rehoming does to a closure

Taking a scope out from between a closure and the frames around it changes operands in place and
nothing else. That is said here of raw tapes, whether or not the closure fits into any frames: an
access to a scope inside of the one that goes away stays as it is, one to a scope outside of it is
one level nearer, and one to the scope itself goes to the slot that the variable has in the frame
that takes its place (`SlotMap.Redirects`). A return out of the method is one level nearer too.
What a closure makes closures of is relocated in the same way, one level further in, and all other
literals stay (`Code.Relocated`). Levels are bytes, in the operands and in the count on the way in:
up to 255 scopes inside the block the count tells the scope that went away from all others, and in
the closure after that it is zero again, which is the level of the closure's own variables.

* `rehomeAccess_rewrites`: an access to a variable is rewritten so;
* `Program.rehomedFrom_cons`: what one step of rehoming does;
* `Program.rehomedFrom_relocates`: what it does to the instructions from an offset on;
* `Code.rehomed_relocated`: what it does to a closure, at any depth.
-/

namespace Parley

variable {m : SlotMap} {ip n n' : Nat} {op op' : Opcode} {removed first second : UInt8}
  {tape tape' : Tape} {literals literals' : Array (Literal Code)} {p : Program Code}

/-! ### Operands -/

/-- Where an access to a variable goes when the scope `removed` levels out is spliced away. -/
inductive SlotMap.Redirects (m : SlotMap) (removed : UInt8) :
    Opcode → UInt8 → UInt8 → Opcode → UInt8 → UInt8 → Prop
  | inside {op : Opcode} {slot level : UInt8} : op.hasContextOperand → level < removed →
      Redirects m removed op slot level op slot level
  | outside {op : Opcode} {slot level : UInt8} : op.hasContextOperand → removed < level →
      Redirects m removed op slot level op slot (level - 1)
  | temporary {op : Opcode} {slot level s : UInt8} :
      op = .push .temporary ∨ op = .pop .temporary → level = removed →
      m.local? slot = .ok s → Redirects m removed op slot level op s level
  | pushArgument {slot level s : UInt8} : level = removed → m.argument slot = .ok s →
      Redirects m removed (.push .argument) slot level (.push .temporary) s level
  | popArgument {slot level s : UInt8} : level = removed → m.argument slot = .ok s →
      Redirects m removed (.pop .argument) slot level (.pop .temporary) s level

theorem SlotMap.Redirects.hasContextOperand {slot level slot' level' : UInt8}
    (h : m.Redirects removed op slot level op' slot' level') :
    op.hasContextOperand ∧ op'.hasContextOperand := by
  cases h with
  | inside hop | outside hop => exact ⟨hop, hop⟩
  | temporary hop => rcases hop with rfl | rfl <;> exact ⟨rfl, rfl⟩
  | pushArgument | popArgument => exact ⟨rfl, rfl⟩

/-- What an instruction of a closure becomes when the scope `removed` levels out is spliced
    away. -/
inductive SlotMap.Rewrites (m : SlotMap) (removed : UInt8) :
    Opcode → UInt8 → UInt8 → Opcode → UInt8 → UInt8 → Prop
  | access {op op' : Opcode} {slot level slot' level' : UInt8} :
      m.Redirects removed op slot level op' slot' level' →
      Rewrites m removed op slot level op' slot' level'
  | leaveInside {level : UInt8} : level < removed →
      Rewrites m removed .returnNonLocal level 0 .returnNonLocal level 0
  | leaveOutside {level : UInt8} : removed < level →
      Rewrites m removed .returnNonLocal level 0 .returnNonLocal (level - 1) 0
  | other {op : Opcode} {first second : UInt8} : op.hasContextOperand = false →
      op ≠ .returnNonLocal → Rewrites m removed op first second op first second

theorem Opcode.size_of_hasContextOperand (h : op.hasContextOperand) : op.size = 3 := by
  cases op <;> first | rfl | cases h

/-! ### Single instructions -/

/-- The instruction at an offset is rewritten in place, to one of the same length. -/
structure SlotMap.RewritesAt (m : SlotMap) (removed : UInt8) (tape tape' : Tape) (ip : Nat)
    (op : Opcode) : Prop where
  differs : tape.DiffersAt tape' ip op
  length : (tape'.opcode? ip).map Opcode.size = some op.size
  rewrites : ∀ first second, tape.Reads ip op first second → ∃ op' first' second',
    tape'.Reads ip op' first' second' ∧ m.Rewrites removed op first second op' first' second'

namespace SlotMap.RewritesAt

theorem refl (ho : tape.opcode? ip = some op) (h : ∀ first second,
    tape.Reads ip op first second → m.Rewrites removed op first second op first second) :
    m.RewritesAt removed tape tape ip op where
  differs := ⟨rfl, fun _ _ => rfl⟩
  length := by rw [ho]; rfl
  rewrites first second hr := ⟨op, first, second, hr, h first second hr⟩

/-- Another first operand. -/
theorem set_first (ho : tape.opcode? ip = some op) (hsize : 2 ≤ op.size) {b : UInt8}
    (h : ∀ first second, tape.Reads ip op first second →
      m.Rewrites removed op first second op b second) :
    m.RewritesAt removed tape (tape.setIfInBounds (ip + 1) b) ip op where
  differs := .set (by omega) (by omega)
  length := by rw [Tape.opcode?_set_of_ne (Nat.succ_ne_self ip), ho]; rfl
  rewrites first second hr := ⟨op, b, second, hr.set_first hsize b, h first second hr⟩

/-- Another second operand. -/
theorem set_second (ho : tape.opcode? ip = some op) (hsize : op.size = 3) {b : UInt8}
    (h : ∀ first second, tape.Reads ip op first second →
      m.Rewrites removed op first second op first b) :
    m.RewritesAt removed tape (tape.setIfInBounds (ip + 2) b) ip op where
  differs := .set (by omega) (by omega)
  length := by rw [Tape.opcode?_set_of_ne (by omega : ip + 2 ≠ ip), ho]; rfl
  rewrites first second hr := ⟨op, first, b, hr.set_second hsize b, h first second hr⟩

/-- Another opcode, and another first operand. -/
theorem set_opcode (ho : tape.opcode? ip = some op) (hsize : 2 ≤ op.size)
    (hsize' : op'.size = op.size) {b : UInt8} (h : ∀ first second,
      tape.Reads ip op first second → m.Rewrites removed op first second op' b second) :
    m.RewritesAt removed tape ((tape.setIfInBounds ip op'.byte).setIfInBounds (ip + 1) b) ip
      op where
  differs := (Tape.DiffersAt.set le_rfl (by omega)).trans (.set (by omega) (by omega))
  length := by
    have hlt : ip < tape.size := by
      by_contra hge
      rw [Tape.opcode?, Array.getElem?_eq_none (by omega)] at ho
      cases ho
    rw [Tape.opcode?_set_of_ne (Nat.succ_ne_self ip), Tape.opcode?_set_self op' hlt, ← hsize']
    rfl
  rewrites first second hr :=
    ⟨op', b, second, (hr.set_opcode hsize').set_first (hsize' ▸ hsize) b, h first second hr⟩

end SlotMap.RewritesAt

/-- An access to a variable is rewritten in place. -/
theorem rehomeAccess_rewrites (hop : op.hasContextOperand) (ho : tape.opcode? ip = some op)
    (h : rehomeAccess removed m tape ip op = .ok tape') :
    m.RewritesAt removed tape tape' ip op := by
  have hsize := Opcode.size_of_hasContextOperand hop
  unfold rehomeAccess at h
  extract_lets slot level at h
  have hslot : ∀ {first second}, tape.Reads ip op first second → slot = first :=
    fun hr => hr.first (by omega)
  have hlevel : ∀ {first second}, tape.Reads ip op first second → level = second :=
    fun hr => hr.second (by omega)
  split at h
  -- The scope is outside: one level less.
  · rename_i hlt
    cases h
    refine .set_second ho hsize fun first second hr => .access ?_
    obtain rfl := hlevel hr
    exact .outside hop hlt
  · rename_i hnot
    split at h
    -- The scope goes away: another slot, of a local.
    · rename_i hremoved
      have htemporary : op = .push .temporary ∨ op = .pop .temporary →
          (m.local? slot).map (tape.setIfInBounds (ip + 1) ·) = .ok tape' →
            m.RewritesAt removed tape tape' ip op := by
        intro hop h
        obtain ⟨s, hs, rfl⟩ := Except.exists_of_map_eq_ok h
        refine .set_first ho (by omega) fun first second hr => .access ?_
        obtain rfl := hslot hr
        obtain rfl := hlevel hr
        exact .temporary hop hremoved hs
      split at h
      · exact htemporary (.inl rfl) h
      · exact htemporary (.inr rfl) h
      · obtain ⟨s, hs, rfl⟩ := Except.exists_of_map_eq_ok h
        have hsize' : Opcode.size (.push .temporary) = Opcode.size (.push .argument) := rfl
        refine .set_opcode ho (by omega) hsize' fun first second hr => .access ?_
        obtain rfl := hslot hr
        obtain rfl := hlevel hr
        exact .pushArgument hremoved hs
      · obtain ⟨s, hs, rfl⟩ := Except.exists_of_map_eq_ok h
        have hsize' : Opcode.size (.pop .temporary) = Opcode.size (.pop .argument) := rfl
        refine .set_opcode ho (by omega) hsize' fun first second hr => .access ?_
        obtain rfl := hslot hr
        obtain rfl := hlevel hr
        exact .popArgument hremoved hs
      · cases h
    -- The scope is inside.
    · rename_i hne
      cases h
      refine .refl ho fun first second hr => .access (.inside hop ?_)
      obtain rfl := hlevel hr
      exact UInt8.lt_of_le_of_ne (UInt8.not_lt.1 hnot) hne

/-! ### Whole programs -/

/-- An instruction that makes a closure with its frame, of the literal with a number. -/
def Program.ClosesAt (p : Program Code) (ip i : Nat) : Prop :=
  p.tape.opcode? ip = some (.pushBlock true) ∧ (p.tape.byteAt (ip + 1)).toNat = i

/-- One step of rehoming rewrites an instruction, and puts the closure that it makes, if it makes
    one, in the place of the literal. -/
theorem Program.rehomedFrom_cons {rest : List Nat} {r : Tape × Array (Literal Code) × Nat}
    (h : p.rehomedFrom removed m (ip :: rest) tape literals n = .ok r) :
    ∃ op tape₁ literals₁ n₁, tape.opcode? ip = some op ∧ m.RewritesAt removed tape tape₁ ip op ∧
      p.rehomedFrom removed m rest tape₁ literals₁ n₁ = .ok r ∧
      (op ≠ .pushBlock true ∧ literals₁ = literals ∨ op = .pushBlock true ∧ ∃ b b',
        p.literals[(tape.byteAt (ip + 1)).toNat]? = some (.block b) ∧
        b.rehomed (removed + 1) m n = .ok (b', n₁) ∧
        literals₁ = literals.setIfInBounds (tape.byteAt (ip + 1)).toNat (.block b')) := by
  rw [Program.rehomedFrom] at h
  split at h
  · cases h
  · rename_i place ho
    split at h
    · cases h
    · rename_i tape₁ ha
      exact ⟨_, tape₁, literals, n, ho, rehomeAccess_rewrites rfl ho ha, h,
        .inl ⟨Opcode.noConfusion, rfl⟩⟩
  · rename_i place ho
    split at h
    · cases h
    · rename_i tape₁ ha
      exact ⟨_, tape₁, literals, n, ho, rehomeAccess_rewrites rfl ho ha, h,
        .inl ⟨Opcode.noConfusion, rfl⟩⟩
  · rename_i ho
    have hlevel : ∀ {first second}, tape.Reads ip .returnNonLocal first second →
        tape.byteAt (ip + 1) = first ∧ second = 0 :=
      fun hr => ⟨hr.first le_rfl, hr.noSecond (by decide)⟩
    dsimp only at h
    split at h
    · cases h
    · rename_i hne
      by_cases hlt : removed < tape.byteAt (ip + 1)
      · rw [if_pos hlt] at h
        refine ⟨_, _, literals, n, ho, .set_first ho le_rfl fun first second hr => ?_, h,
          .inl ⟨Opcode.noConfusion, rfl⟩⟩
        obtain ⟨rfl, rfl⟩ := hlevel hr
        exact .leaveOutside hlt
      · rw [if_neg hlt] at h
        refine ⟨_, _, literals, n, ho, .refl ho fun first second hr => ?_, h,
          .inl ⟨Opcode.noConfusion, rfl⟩⟩
        obtain ⟨rfl, rfl⟩ := hlevel hr
        exact .leaveInside (UInt8.lt_of_le_of_ne (UInt8.not_lt.1 hlt) hne)
  · rename_i ho
    extract_lets index at h
    split at h
    · cases h
    · rename_i nested hnested
      split at h
      · cases h
      · rename_i nested' n₁ hrehomed
        refine ⟨_, tape, _, n₁, ho,
          .refl ho fun first second hr => .other rfl Opcode.noConfusion, h,
          .inr ⟨rfl, nested, nested', ?_, hrehomed, rfl⟩⟩
        unfold blockLiteral literal? at hnested
        split at hnested
        · rename_i hl
          cases hnested
          exact hl
        · cases hnested
  · rename_i op₀ hpush hpop hreturn hclosure ho
    refine ⟨op₀, tape, literals, n, ho, .refl ho fun first second hr => .other ?_ ?_, h,
      .inl ⟨?_, rfl⟩⟩
    · cases op₀ with
      | push place => exact absurd rfl (hpush place)
      | pop place => exact absurd rfl (hpop place)
      | _ => rfl
    · rintro rfl
      exact hreturn rfl
    · rintro rfl
      exact hclosure rfl

/-- What rehoming does to the instructions at some offsets. `R` is what becomes of the closures
    that they make. -/
structure Program.Relocates (p : Program Code) (m : SlotMap) (removed : UInt8)
    (R : Code → Code → Prop) (starts : List Nat) (tape' : Tape)
    (literals literals' : Array (Literal Code)) : Prop where
  size : tape'.size = p.tape.size
  lengths : ∀ ip ∈ starts, (tape'.opcode? ip).map Opcode.size = (p.tape.opcode? ip).map Opcode.size
  rewrites : ∀ ip ∈ starts, ∀ op first second, p.tape.Reads ip op first second →
    ∃ op' first' second', tape'.Reads ip op' first' second' ∧
      m.Rewrites removed op first second op' first' second'
  count : literals'.size = literals.size
  others : ∀ i, (∀ ip ∈ starts, ¬p.ClosesAt ip i) → literals'[i]? = literals[i]?
  closures : ∀ ip ∈ starts, ∀ i, p.ClosesAt ip i → ∃ b b', p.literals[i]? = some (.block b) ∧
    literals'[i]? = some (.block b') ∧ R b b'

/-- Rehoming rewrites the instructions from an offset on, one after another, and none before. -/
theorem Program.rehomedFrom_relocates {R : Code → Code → Prop}
    (hR : ∀ b b' n n', .block b ∈ p.literals → b.rehomed (removed + 1) m n = .ok (b', n') → R b b')
    (hsize : tape.size = p.tape.size) (hsame : ∀ k, ip ≤ k → tape[k]? = p.tape[k]?)
    (hcount : literals.size = p.literals.size)
    (h : p.rehomedFrom removed m (p.tape.startsFrom ip) tape literals n =
      .ok (tape', literals', n')) :
    (∀ k < ip, tape'[k]? = tape[k]?) ∧
      p.Relocates m removed R (p.tape.startsFrom ip) tape' literals literals' := by
  induction ip using Tape.startsFrom.induct p.tape generalizing tape literals n with
  | case1 ip hlt op hop _ ih =>
    rw [Tape.startsFrom_of_opcode hlt hop] at h ⊢
    obtain ⟨op₁, tape₁, literals₁, n₁, ho, hrewrites, hrest, hliterals⟩ := rehomedFrom_cons h
    have hpos := op.size_pos
    -- What is rewritten was not written to before.
    have hbyte : ∀ k, ip ≤ k → tape.byteAt k = p.tape.byteAt k := fun k hk => by
      rw [Tape.byteAt, Tape.byteAt, Array.getD_eq_getD_getElem?, Array.getD_eq_getD_getElem?,
        hsame k hk]
    have ho' : tape.opcode? ip = p.tape.opcode? ip := by
      rw [Tape.opcode?, Tape.opcode?, hsame ip le_rfl]
    obtain rfl : op₁ = op := Option.some.inj (ho.symm.trans (ho'.trans hop))
    have hcount₁ : literals₁.size = literals.size := by
      rcases hliterals with ⟨-, rfl⟩ | ⟨-, b, b', -, -, rfl⟩
      · rfl
      · exact Array.size_setIfInBounds
    obtain ⟨hbefore, hr⟩ := ih (hrewrites.differs.size.trans hsize)
      (fun k hk => (hrewrites.differs.elsewhere k (.inr hk)).trans (hsame k (by omega)))
      (hcount₁.trans hcount) hrest
    have hhere : ∀ k, ip ≤ k → k < ip + op₁.size → tape'[k]? = tape₁[k]? :=
      fun k _ hk => hbefore k hk
    refine ⟨fun k hk => (hbefore k (by omega)).trans (hrewrites.differs.elsewhere k (.inl hk)),
      ⟨hr.size, fun i hi => ?_, fun i hi op first second hreads => ?_, hr.count.trans hcount₁,
        fun i hi => ?_, fun i hi j hj => ?_⟩⟩
    · rcases List.mem_cons.1 hi with rfl | hi
      · rw [Tape.opcode?, hhere i le_rfl (by omega), ← Tape.opcode?, hrewrites.length, hop]
        rfl
      · exact hr.lengths i hi
    · rcases List.mem_cons.1 hi with rfl | hi
      · obtain rfl : op₁ = op := Option.some.inj (hop.symm.trans hreads.opcode)
        obtain ⟨op', first', second', hreads', hrw⟩ := hrewrites.rewrites first second
          (hreads.congr hsize.ge fun k hk _ => hsame k hk)
        refine ⟨op', first', second', hreads'.congr ?_ fun k hk hk' => hhere k hk ?_, hrw⟩
        · rw [hr.size, hrewrites.differs.size, hsize]
        · have hlength := hrewrites.length
          rw [hreads'.opcode, Option.map_some, Option.some.injEq] at hlength
          omega
      · exact hr.rewrites i hi op first second hreads
    · rw [hr.others i fun k hk => hi k (List.mem_cons_of_mem _ hk)]
      rcases hliterals with ⟨-, rfl⟩ | ⟨rfl, b, b', -, -, rfl⟩
      · rfl
      · refine Array.getElem?_setIfInBounds_ne fun hne => hi ip (List.mem_cons_self ..) ⟨hop, ?_⟩
        rw [← hbyte _ (Nat.le_succ ip), hne]
    · -- A literal that is needed again is rehomed again, from the literal that was there first.
      by_cases hlater : ∃ k ∈ p.tape.startsFrom (ip + op₁.size), p.ClosesAt k j
      · obtain ⟨k, hk, hcloses⟩ := hlater
        exact hr.closures k hk j hcloses
      · have hi : i = ip := (List.mem_cons.1 hi).resolve_right fun hi => hlater ⟨i, hi, hj⟩
        subst hi
        obtain rfl : op₁ = .pushBlock true := Option.some.inj (hop.symm.trans hj.1)
        obtain ⟨b, b', hb, hrehomed, rfl⟩ := (hliterals.resolve_left fun hne => hne.1 rfl).2
        have hindex : (tape.byteAt (i + 1)).toNat = j := by rw [hbyte _ (Nat.le_succ i), hj.2]
        rw [hindex] at hb
        refine ⟨b, b', hb, ?_, hR b b' _ _ (Array.mem_of_getElem? hb) hrehomed⟩
        rw [hr.others j fun k hk hcloses => hlater ⟨k, hk, hcloses⟩, hindex,
          Array.getElem?_setIfInBounds_self, if_pos]
        exact hcount ▸ (Array.getElem?_eq_some_iff.1 hb).1
  | case2 ip hlt hop =>
    rw [Tape.startsFrom, dif_pos hlt] at h
    simp only [hop] at h
    obtain ⟨op, -, -, -, ho, -⟩ := rehomedFrom_cons h
    rw [Tape.opcode?, hsame ip le_rfl, ← Tape.opcode?, hop] at ho
    cases ho
  | case3 ip hge =>
    rw [Tape.startsFrom, dif_neg hge] at h ⊢
    rw [Program.rehomedFrom] at h
    cases h
    exact ⟨fun _ _ => rfl, hsize, by simp, by simp, rfl, fun _ _ => rfl, by simp⟩

/-! ### Closures -/

/-- A program with the instructions of another one, each rewritten in place. -/
structure Program.Relocated (m : SlotMap) (removed : UInt8) (p p' : Program Code) : Prop where
  arguments : p'.arguments = p.arguments
  locals : p'.locals = p.locals
  loops : p'.loops = p.loops
  size : p'.tape.size = p.tape.size
  starts : p'.tape.starts = p.tape.starts
  rewrites : ∀ ip ∈ p.tape.starts, ∃ op first second op' first' second',
    p.tape.Reads ip op first second ∧ p'.tape.Reads ip op' first' second' ∧
      m.Rewrites removed op first second op' first' second'
  count : p'.literals.size = p.literals.size
  /-- A literal stays unless a closure is made of it, with its frame. -/
  others : ∀ i, (∀ ip ∈ p.tape.starts, ¬p.ClosesAt ip i) → p'.literals[i]? = p.literals[i]?
  closures : ∀ ip ∈ p.tape.starts, ∀ i, p.ClosesAt ip i → ∃ b b',
    p.literals[i]? = some (.block b) ∧ p'.literals[i]? = some (.block b')

/-- A closure that the scope `removed` levels out was taken out for, in the closures inside it at
    any depth as well. The count of levels wraps as a byte does. -/
inductive Code.Relocated (m : SlotMap) : UInt8 → Code → Code → Prop
  | intro {removed : UInt8} {c c' : Code} : c'.signature = c.signature → c'.holder = c.holder →
      c'.isBlock = true → Program.Relocated m removed c.program c'.program →
      (∀ ip ∈ c.program.tape.starts, ∀ i, c.program.ClosesAt ip i → ∀ b b',
        c.program.literals[i]? = some (.block b) → c'.program.literals[i]? = some (.block b') →
          Relocated m (removed + 1) b b') →
      Relocated m removed c c'

theorem Program.make_eq {tape : Tape} {literals : Array (Literal Code)}
    {arguments locals : Array Variable} {loops : List LoopMark} {p : Program Code}
    (h : Program.make tape literals arguments locals loops = .ok p) :
    (∃ depths bound, tape.Checked literals arguments.size locals.size depths bound) ∧
      p.tape = tape ∧ p.literals = literals ∧ p.arguments = arguments ∧ p.locals = locals ∧
        p.loops = loops := by
  rw [Program.make] at h
  split at h
  · cases h
  · rename_i maxStack hbound
    cases h
    obtain ⟨⟨depths, bound⟩, hr, -⟩ := Except.exists_of_map_eq_ok hbound
    exact ⟨⟨depths, bound, Tape.checked_of_check hr⟩, rfl, rfl, rfl, rfl, rfl⟩

/-- Rehoming a closure relocates it. -/
theorem Code.rehomed_relocated {c c' : Code} {removed : UInt8} {n n' : Nat}
    (h : c.rehomed removed m n = .ok (c', n')) : c.Relocated m removed c' := by
  match c, h with
  | .mk id signature holder isBlock p, h =>
    rw [Code.rehomed] at h
    split at h
    · cases h
    · rename_i tape literals next hfrom
      split at h
      · cases h
      · rename_i q hmake
        cases h
        obtain ⟨⟨depths, bound, hchecked⟩, rfl, rfl, harguments, hlocals, hloops⟩ :=
          Program.make_eq hmake
        obtain ⟨-, hr⟩ := Program.rehomedFrom_relocates
          (R := fun b b' => b.Relocated m (removed + 1) b')
          (fun b b' _ _ hmem hb => Code.rehomed_relocated hb) rfl (fun _ _ => rfl) rfl hfrom
        have hstarts : q.tape.starts = p.tape.starts := Tape.starts_congr hr.size hr.lengths
        refine .intro rfl rfl rfl ⟨harguments, hlocals, hloops, hr.size, hstarts, fun ip hip => ?_,
          hr.count, hr.others, fun ip hip i hi => ?_⟩ fun ip hip i hi b b' hb hb' => ?_
        · obtain ⟨op', ho', hfits⟩ := hchecked.splits ip (hstarts ▸ hip)
          have hlength := hr.lengths ip hip
          rw [ho', Option.map_some, eq_comm, Option.map_eq_some_iff] at hlength
          obtain ⟨op, ho, hsize⟩ := hlength
          -- The old instruction is complete since the new one is.
          have hreads := Tape.reads_of_opcode ho (by rw [hsize]; exact hr.size ▸ hfits)
          obtain ⟨op', first', second', hreads', hrw⟩ := hr.rewrites ip hip _ _ _ hreads
          exact ⟨_, _, _, _, _, _, hreads, hreads', hrw⟩
        · obtain ⟨b, b', hb, hb', -⟩ := hr.closures ip hip i hi
          exact ⟨b, b', hb, hb'⟩
        · obtain ⟨b₁, b₁', hb₁, hb₁', hrel⟩ := hr.closures ip hip i hi
          obtain rfl : b₁ = b := by simpa using hb₁.symm.trans hb
          obtain rfl : b₁' = b' := by simpa using hb₁'.symm.trans hb'
          exact hrel
termination_by sizeOf c
decreasing_by
  have := Code.sizeOf_lt_of_mem_blocks (b := b) (c := .mk id signature holder isBlock p)
    (List.mem_filterMap.2 ⟨.block b, Array.mem_toList_iff.2 hmem, rfl⟩)
  omega

end Parley
