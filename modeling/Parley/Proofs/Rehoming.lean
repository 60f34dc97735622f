import Parley.Proofs.Writing

/-!
# Rehoming closures

When a block is spliced, its frame goes away from between the frame that it is spliced into and
the frames of the closures made in it (`Outlines.Spliced`). What an instruction addressed in one
of the other frames is one level nearer then, or as near as before; what it addressed in the frame
that went away is where the slot map says (`Addresses.spliced`). An instruction that is rewritten
so addresses what is there (`Opcode.Becomes`).

* `rehomeAccess_becomes`: a variable access is rewritten so;
* `Program.Rehomed.labelled`: a program whose instructions are all rewritten keeps its labels;
* `Code.rehomed_lexical`: a closure can be rehomed, and fits into the frames that are left.
-/

namespace Parley

variable {frames frames' env env' : List Outline} {removed ip next : Nat} {level : UInt8}
  {block into : Outline} {m : SlotMap} {op op' : Opcode} {first second first' second' : UInt8}
  {D : Nat → Nat}

/-! ### Frames that go away -/

/-- Where the variables of a block are in the frame that it is spliced into. -/
structure SlotMap.Maps (m : SlotMap) (block into : Outline) : Prop where
  locals : ∀ slot : UInt8, slot.toNat < block.locals →
    ∃ s, m.local? slot = .ok s ∧ s.toNat < into.locals
  arguments : ∀ slot : UInt8, slot ≠ 0 → slot.toNat < block.arguments →
    ∃ s, m.argument slot = .ok s ∧ s.toNat < into.locals

/-- The frame at a level goes away. The frame around it takes its place, with further locals, and
    is the one at that level then. -/
structure Outlines.Spliced (frames : List Outline) (removed : Nat) (block into : Outline)
    (frames' : List Outline) : Prop where
  inner : ∀ i < removed, frames'[i]? = frames[i]?
  away : frames[removed]? = some block
  target : frames'[removed]? = some into
  outer : ∀ (i : Nat) o, removed < i → frames[i]? = some o → ∃ o', frames'[i - 1]? = some o' ∧
    o.Le o'
  length : frames.length = frames'.length + 1

namespace Outlines.Spliced

theorem innermost (block : Outline) {o into : Outline} (h : o.Le into) (outer : List Outline) :
    Spliced (block :: o :: outer) 0 block into (into :: outer) where
  inner i hi := by omega
  away := rfl
  target := rfl
  outer i o' hi ho' := by
    obtain ⟨i, rfl⟩ := Nat.exists_eq_add_one.2 hi
    rw [List.getElem?_cons_succ] at ho'
    rw [Nat.add_sub_cancel]
    exact Outlines.Le.getElem? (.cons h (Outlines.Le.refl outer)) ho'
  length := rfl

theorem cons (h : Spliced frames removed block into frames') (o : Outline) :
    Spliced (o :: frames) (removed + 1) block into (o :: frames') where
  inner i hi := by
    cases i with
    | zero => rfl
    | succ i => exact h.inner i (by omega)
  away := h.away
  target := h.target
  outer i o' hi ho' := by
    obtain ⟨i, rfl⟩ : ∃ j, i = j + 1 := Nat.exists_eq_add_one.2 (by omega)
    rw [List.getElem?_cons_succ] at ho'
    obtain ⟨o'', ho'', hle⟩ := h.outer i o' (by omega) ho'
    refine ⟨o'', ?_, hle⟩
    obtain ⟨i, rfl⟩ : ∃ j, i = j + 1 := Nat.exists_eq_add_one.2 (by omega)
    exact ho''
  length := by simp [h.length]

theorem lt_length (h : Spliced frames removed block into frames') :
    removed + 1 < frames.length := by
  have := (List.getElem?_eq_some_iff.1 h.target).1
  rw [h.length]
  omega

end Outlines.Spliced

/-! ### Variable accesses -/

theorem toNat_sub_one {level : UInt8} (h : 0 < level.toNat) :
    (level - 1).toNat = level.toNat - 1 := by
  rw [UInt8.toNat_sub_of_le]
  · rfl
  · rw [UInt8.le_iff_toNat_le]
    exact h

/-- Of a variable access, what is addressed is where it was if its frame is inside, one level
    nearer if its frame is outside, and where the slot map says if its frame went away. -/
theorem Opcode.Addresses.spliced (hs : Outlines.Spliced frames removed block into frames')
    (hm : m.Maps block into) {place : Place} (hop : op = .push place ∨ op = .pop place)
    (h : op.Addresses frames first second) :
    (second.toNat < removed → op.Addresses frames' first second) ∧
    (removed < second.toNat → op.Addresses frames' first (second - 1)) ∧
    (second.toNat = removed →
      (place = .temporary ∧ ∃ s, m.local? first = .ok s ∧ op.Addresses frames' s second) ∨
      place = .argument ∧ ∃ s, m.argument first = .ok s ∧
        ((op = .push .argument → (Opcode.push .temporary).Addresses frames' s second) ∧
          (op = .pop .argument → (Opcode.pop .temporary).Addresses frames' s second))) := by
  have hlt := hs.lt_length
  have hlength := hs.length
  refine ⟨fun hlevel => ?_, fun hlevel => ?_, fun hlevel => ?_⟩
  -- The frame is inside, so it is not that of the method.
  · cases place with
    | temporary =>
      rcases hop with rfl | rfl <;>
      · obtain ⟨o, ho, hslot⟩ := h
        exact ⟨o, (hs.inner _ hlevel).trans ho, hslot⟩
    | argument =>
      rcases hop with rfl | rfl <;>
      · obtain ⟨o, ho, hslot, hzero⟩ := h
        refine ⟨o, (hs.inner _ hlevel).trans ho, hslot, ?_⟩
        first | exact hzero | exact fun hz => absurd (hzero hz) (by omega)
    | field =>
      rcases hop with rfl | rfl <;>
      · simp only [Opcode.Addresses] at h
        omega
  · have hpos : 0 < second.toNat := by omega
    have hnat := toNat_sub_one hpos
    cases place with
    | temporary =>
      rcases hop with rfl | rfl <;>
      · obtain ⟨o, ho, hslot⟩ := h
        obtain ⟨o', ho', hle⟩ := hs.outer _ o hlevel ho
        exact ⟨o', hnat ▸ ho', hslot.trans_le hle.locals⟩
    | argument =>
      rcases hop with rfl | rfl <;>
      · obtain ⟨o, ho, hslot, hzero⟩ := h
        obtain ⟨o', ho', hle⟩ := hs.outer _ o hlevel ho
        refine ⟨o', hnat ▸ ho', hle.arguments ▸ hslot, ?_⟩
        first
          | exact hzero
          | exact fun hz => by have := hzero hz; omega
    | field =>
      rcases hop with rfl | rfl <;>
      · simp only [Opcode.Addresses] at h ⊢
        omega
  · have haway : frames[second.toNat]? = some block := hlevel ▸ hs.away
    have htarget : frames'[second.toNat]? = some into := hlevel ▸ hs.target
    cases place with
    | temporary =>
      rcases hop with rfl | rfl <;>
      · obtain ⟨o, ho, hslot⟩ := h
        obtain rfl : o = block := Option.some.inj (ho.symm.trans haway)
        obtain ⟨s, hms, hs'⟩ := hm.locals first hslot
        exact .inl ⟨rfl, s, hms, into, htarget, hs'⟩
    | argument =>
      rcases hop with rfl | rfl
      · obtain ⟨o, ho, hslot, hzero⟩ := h
        obtain rfl : o = block := Option.some.inj (ho.symm.trans haway)
        obtain ⟨s, hms, hs'⟩ := hm.arguments first (fun hz => by have := hzero hz; omega) hslot
        exact .inr ⟨rfl, s, hms, fun _ => ⟨into, htarget, hs'⟩, by simp⟩
      · obtain ⟨o, ho, hslot, hzero⟩ := h
        obtain rfl : o = block := Option.some.inj (ho.symm.trans haway)
        obtain ⟨s, hms, hs'⟩ := hm.arguments first hzero hslot
        exact .inr ⟨rfl, s, hms, by simp, fun _ => ⟨into, htarget, hs'⟩⟩
    | field =>
      rcases hop with rfl | rfl <;>
      · simp only [Opcode.Addresses] at h
        omega

/-- What an instruction of a rehomed closure is rewritten to: only variable accesses and
    returns from the method change, and they still leave the frame if they did. -/
structure Opcode.Becomes (frames' : List Outline) (op : Opcode) (first second : UInt8)
    (op' : Opcode) (first' second' : UInt8) : Prop where
  addresses : op'.Addresses frames' first' second'
  kind : op' = op ∧ (op ≠ .returnNonLocal → op.hasContextOperand = false →
      first' = first ∧ second' = second) ∨
    (∃ place place', op = .push place ∧ op' = .push place') ∨
      ∃ place place', op = .pop place ∧ op' = .pop place'
  leaves : second ≠ 0 → second' ≠ 0

namespace Opcode.Becomes

variable (h : op.Becomes frames' first second op' first' second')

include h

theorem size : op'.size = op.size := by
  rcases h.kind with ⟨rfl, -⟩ | ⟨_, _, rfl, rfl⟩ | ⟨_, _, rfl, rfl⟩ <;> rfl

/-- An instruction that has a literal, or that jumps, stays as it is. -/
theorem eq_of_plain (hleave : op ≠ .returnNonLocal) (hop : op.hasContextOperand = false) :
    op' = op ∧ first' = first ∧ second' = second := by
  rcases h.kind with ⟨rfl, hsame⟩ | ⟨_, _, rfl, rfl⟩ | ⟨_, _, rfl, rfl⟩
  · exact ⟨rfl, hsame hleave hop⟩
  · cases hop
  · cases hop

/-- An instruction that changes has the effect that it had. -/
theorem effect? : op'.effect? = op.effect? ∧ Tape.fallsThrough op' = Tape.fallsThrough op := by
  rcases h.kind with ⟨rfl, -⟩ | ⟨_, _, rfl, rfl⟩ | ⟨_, _, rfl, rfl⟩ <;> exact ⟨rfl, rfl⟩

end Opcode.Becomes

/-- A variable access is rewritten in place. -/
theorem rehomeAccess_becomes (hs : Outlines.Spliced frames removed block into frames')
    (hcount : level.toNat = removed) (hm : m.Maps block into) (hpos : 0 < removed) {place : Place}
    (hop : op = .push place ∨ op = .pop place) {tape : Tape} (hr : tape.Reads ip op first second)
    (h : op.Addresses frames first second) :
    ∃ tape' op' first' second', rehomeAccess level m tape ip op = .ok tape' ∧
      tape.DiffersAt tape' ip op ∧ tape'.Reads ip op' first' second' ∧
        op.Becomes frames' first second op' first' second' := by
  have hsize : op.size = 3 := by rcases hop with rfl | rfl <;> rfl
  have hcontext : op.hasContextOperand = true := by rcases hop with rfl | rfl <;> rfl
  obtain ⟨⟨b, hb, hopcode⟩, hfirst, hsecond⟩ := hr.bytes hsize
  have hlt := hr.fits
  rw [hsize] at hlt
  have h₀ : ip < tape.size := by omega
  have h₁ : ip + 1 < tape.size := by omega
  have h₂ : ip + 2 < tape.size := by omega
  obtain ⟨hin, hout, haway⟩ := h.spliced hs hm hop
  unfold rehomeAccess
  rw [hr.first (by omega), hr.second (by omega)]
  simp only [UInt8.lt_iff_toNat_lt, ← UInt8.toNat_inj, hcount]
  split
  -- The frame is outside: one level less.
  · rename_i hlevel
    have hnat := toNat_sub_one (show 0 < second.toNat by omega)
    refine ⟨_, op, first, second - 1, rfl, ⟨by simp, fun i hi => ?_⟩,
      Tape.reads_of_bytes hsize (b := b) ?_ hopcode ?_ ?_,
      ⟨hout hlevel, .inl ⟨rfl, fun _ hc => by rw [hcontext] at hc; cases hc⟩, fun _ hz => ?_⟩⟩
    · rw [Array.getElem?_setIfInBounds_ne (by omega)]
    · rw [Array.getElem?_setIfInBounds_ne (by omega), hb]
    · rw [Array.getElem?_setIfInBounds_ne (by omega), hfirst]
    · rw [Array.getElem?_setIfInBounds_self, if_pos h₂]
    · rw [hz] at hnat
      simp at hnat
      omega
  · split
    -- The frame went away: another slot, of a local.
    · rename_i hlevel
      have hz : second ≠ 0 := by
        rintro rfl
        simp at hlevel
        omega
      have hslot : ∀ s : UInt8, tape.DiffersAt (tape.setIfInBounds (ip + 1) s) ip op := fun s =>
        ⟨by simp, fun i hi => by rw [Array.getElem?_setIfInBounds_ne (by omega)]⟩
      rcases haway hlevel with ⟨rfl, s, hms, ha⟩ | ⟨rfl, s, hms, hpush, hpop⟩
      · rcases hop with rfl | rfl <;>
        · refine ⟨_, _, s, second, by rw [hms]; rfl, hslot s,
            Tape.reads_of_bytes rfl (b := b) ?_ hopcode ?_ ?_,
            ⟨ha, .inl ⟨rfl, fun _ hc => by cases hc⟩, fun _ => hz⟩⟩
          · rw [Array.getElem?_setIfInBounds_ne (by omega), hb]
          · rw [Array.getElem?_setIfInBounds_self, if_pos h₁]
          · rw [Array.getElem?_setIfInBounds_ne (by omega), hsecond]
      · have hboth : ∀ (b s : UInt8),
            tape.DiffersAt ((tape.setIfInBounds ip b).setIfInBounds (ip + 1) s) ip op := fun b s =>
          ⟨by simp, fun i hi => by
            rw [Array.getElem?_setIfInBounds_ne (by omega),
              Array.getElem?_setIfInBounds_ne (by omega)]⟩
        have hreads : ∀ op' : Opcode, op'.size = 3 →
            Tape.Reads ((tape.setIfInBounds ip op'.byte).setIfInBounds (ip + 1) s) ip op' s
              second := by
          intro op' hsize'
          refine Tape.reads_of_bytes hsize' (b := op'.byte) ?_ op'.ofByte?_byte ?_ ?_
          · rw [Array.getElem?_setIfInBounds_ne (by omega), Array.getElem?_setIfInBounds_self,
              if_pos h₀]
          · rw [Array.getElem?_setIfInBounds_self, Array.size_setIfInBounds, if_pos h₁]
          · rw [Array.getElem?_setIfInBounds_ne (by omega),
              Array.getElem?_setIfInBounds_ne (by omega), hsecond]
        rcases hop with rfl | rfl
        · exact ⟨_, _, s, second, by rw [hms]; rfl, hboth _ s, hreads (.push .temporary) rfl,
            hpush rfl, .inr (.inl ⟨_, _, rfl, rfl⟩), fun _ => hz⟩
        · exact ⟨_, _, s, second, by rw [hms]; rfl, hboth _ s, hreads (.pop .temporary) rfl,
            hpop rfl, .inr (.inr ⟨_, _, rfl, rfl⟩), fun _ => hz⟩
    -- The frame is inside.
    · exact ⟨tape, op, first, second, rfl, ⟨rfl, fun _ _ => rfl⟩, hr, hin (by omega),
        .inl ⟨rfl, fun _ _ => ⟨rfl, rfl⟩⟩, id⟩

/-! ### Whole programs -/

/-- A block without a context stays; one with a context is rehomed. -/
inductive Literal.Moves (frames' : List Outline) : Literal Code → Literal Code → Prop
  | stays (l : Literal Code) : Moves frames' l l
  | moves {b b' : Code} : b.program.needsContext = true → b'.program.needsContext = true →
      b'.Lexical frames' → Moves frames' (.block b) (.block b')

/-- A program whose instructions are rewritten, except at the offsets that are left, with its tape
    and its literals as they are so far. -/
structure Program.Rehomed (p : Program Code) (frames' : List Outline) (left : List Nat)
    (tape : Tape) (literals : Array (Literal Code)) : Prop where
  size : tape.size = p.tape.size
  pending : ∀ ip ∈ left, ∀ op first second, p.tape.Reads ip op first second →
    tape.Reads ip op first second
  done : ∀ ip ∈ p.tape.starts, ip ∉ left → ∀ op first second, p.tape.Reads ip op first second →
    ∃ op' first' second', tape.Reads ip op' first' second' ∧
      op.Becomes frames' first second op' first' second'
  count : literals.size = p.literals.size
  pool : ∀ (i : Nat) l, p.literals[i]? = some l → ∃ l', literals[i]? = some l' ∧ l.Moves frames' l'
  closures : ∀ ip ∈ p.tape.starts, ip ∉ left → ∀ first second,
    p.tape.Reads ip (.pushBlock true) first second → ∃ b', literals[first.toNat]? =
      some (.block b') ∧
      b'.program.needsContext = true ∧ b'.Lexical frames'

namespace Program.Rehomed

variable {p : Program Code} {left : List Nat} {tape tape' : Tape}
  {literals literals' : Array (Literal Code)}

/-- Nothing is rewritten yet. -/
theorem start (p : Program Code) (frames' : List Outline) :
    p.Rehomed frames' p.tape.starts p.tape p.literals where
  size := rfl
  pending _ _ _ _ _ hr := hr
  done _ hip hnot := absurd hip hnot
  count := rfl
  pool _ l hl := ⟨l, hl, .stays l⟩
  closures _ hip hnot := absurd hip hnot

theorem starts (h : p.Rehomed frames' left tape literals) (hp : p.tape.Splits) :
    tape.starts = p.tape.starts := by
  refine Tape.starts_congr h.size fun ip hip => ?_
  obtain ⟨op, first, second, hr⟩ := hp.reads hip
  rw [hr.opcode]
  by_cases hleft : ip ∈ left
  · rw [(h.pending ip hleft op first second hr).opcode]
  · obtain ⟨op', first', second', hr', hb⟩ := h.done ip hip hleft op first second hr
    rw [hr'.opcode, Option.map_some, Option.map_some, hb.size]

/-- One more instruction is rewritten, with the closure that it makes. -/
theorem step (h : p.Rehomed frames' (ip :: left) tape literals) (hp : p.tape.Splits)
    (hmem : ∀ i ∈ ip :: left, i ∈ p.tape.starts) (hnodup : (ip :: left).Nodup)
    (hr : p.tape.Reads ip op first second) (hd : tape.DiffersAt tape' ip op)
    (hr' : tape'.Reads ip op' first' second')
    (hb : op.Becomes frames' first second op' first' second')
    (hcount : literals'.size = literals.size)
    (hpool : ∀ (i : Nat) l, p.literals[i]? = some l → ∃ l', literals'[i]? = some l' ∧
    l.Moves frames' l')
    (hkeep : ∀ (i : Nat) b', literals[i]? = some (.block b') → b'.program.needsContext = true →
      b'.Lexical frames' → ∃ b', literals'[i]? = some (.block b') ∧
        b'.program.needsContext = true ∧ b'.Lexical frames')
    (hclosure : op = .pushBlock true → ∃ b', literals'[first.toNat]? = some (.block b') ∧
      b'.program.needsContext = true ∧ b'.Lexical frames') :
    p.Rehomed frames' left tape' literals' := by
  have hip := hmem ip (List.mem_cons_self ..)
  have hstarts := h.starts hp
  have hopcode : tape.opcode? ip = some op :=
    (h.pending ip (List.mem_cons_self ..) op first second hr).opcode
  rw [List.nodup_cons] at hnodup
  -- What is read elsewhere stays.
  have helse : ∀ i ∈ p.tape.starts, i ≠ ip → ∀ op first second, tape.Reads i op first second →
      tape'.Reads i op first second := fun i hi hne op' first second hr =>
    hd.reads hopcode (hstarts ▸ hip) (hstarts ▸ hi) hne hr
  refine ⟨hd.size.trans h.size, fun i hi op first second hr => ?_,
    fun i hi hnot op₁ first₁ second₁ hr₁ => ?_, hcount.trans h.count, hpool,
    fun i hi hnot first₁ second₁ hr₁ => ?_⟩
  · refine helse i (hmem i (List.mem_cons_of_mem _ hi)) ?_ _ _ _
      (h.pending i (List.mem_cons_of_mem _ hi) op first second hr)
    rintro rfl
    exact hnodup.1 hi
  · by_cases hne : i = ip
    · subst hne
      obtain ⟨rfl, rfl, rfl⟩ := hr.unique hr₁
      exact ⟨op', first', second', hr', hb⟩
    · obtain ⟨op₂, first₂, second₂, hr₂, hb₂⟩ :=
        h.done i hi (by simp [hne, hnot]) op₁ first₁ second₁ hr₁
      exact ⟨op₂, first₂, second₂, helse i hi hne _ _ _ hr₂, hb₂⟩
  · by_cases hne : i = ip
    · subst hne
      obtain ⟨rfl, rfl, rfl⟩ := hr.unique hr₁
      exact hclosure rfl
    · obtain ⟨b', hb', hneeds, hlexical⟩ := h.closures i hi (by simp [hne, hnot]) first₁ second₁ hr₁
      exact hkeep _ b' hb' hneeds hlexical

/-- An instruction is rewritten that makes no closure. -/
theorem step_tape (h : p.Rehomed frames' (ip :: left) tape literals) (hp : p.tape.Splits)
    (hmem : ∀ i ∈ ip :: left, i ∈ p.tape.starts) (hnodup : (ip :: left).Nodup)
    (hr : p.tape.Reads ip op first second) (hd : tape.DiffersAt tape' ip op)
    (hr' : tape'.Reads ip op' first' second')
    (hb : op.Becomes frames' first second op' first' second')
    (hpush : op ≠ .pushBlock true) : p.Rehomed frames' left tape' literals :=
  h.step hp hmem hnodup hr hd hr' hb rfl h.pool
    (fun _ b' hb' hneeds hlexical => ⟨b', hb', hneeds, hlexical⟩) fun hop => absurd hop hpush

/-- A closure is done when its code in the pool is replaced by one that fits into the frames that
    are left. -/
theorem step_closure {b b' : Code} (h : p.Rehomed frames' (ip :: left) tape literals)
    (hp : p.tape.Splits) (hmem : ∀ i ∈ ip :: left, i ∈ p.tape.starts) (hnodup : (ip :: left).Nodup)
    (hr : p.tape.Reads ip (.pushBlock true) first second)
    (hl : p.literals[first.toNat]? = some (.block b)) (hneeds : b.program.needsContext = true)
    (hneeds' : b'.program.needsContext = true) (hlexical' : b'.Lexical frames') :
    p.Rehomed frames' left tape (literals.setIfInBounds first.toNat (.block b')) := by
  have hrt := h.pending ip (List.mem_cons_self ..) _ first second hr
  have hlt := (Array.getElem?_eq_some_iff.1 hl).1
  have hset : (literals.setIfInBounds first.toNat (.block b'))[first.toNat]? =
      some (.block b') := by
    rw [Array.getElem?_setIfInBounds_self, if_pos (h.count ▸ hlt)]
  refine h.step hp hmem hnodup hr ⟨rfl, fun _ _ => rfl⟩ hrt
    ⟨trivial, .inl ⟨rfl, fun _ _ => ⟨rfl, rfl⟩⟩, id⟩ (by simp) (fun i l hl' => ?_)
    (fun i c hc hneeds hlexical => ?_) fun _ => ⟨b', hset, hneeds', hlexical'⟩
  · by_cases hi : first.toNat = i
    · subst hi
      obtain rfl : l = .block b := Option.some.inj (hl'.symm.trans hl)
      exact ⟨_, hset, .moves hneeds hneeds' hlexical'⟩
    · rw [Array.getElem?_setIfInBounds_ne hi]
      exact h.pool i l hl'
  · by_cases hi : first.toNat = i
    · exact ⟨b', hi ▸ hset, hneeds', hlexical'⟩
    · exact ⟨c, by rw [Array.getElem?_setIfInBounds_ne hi, hc], hneeds, hlexical⟩

/-! ### Programs that are rewritten throughout -/

variable {q : Program Code} (h : p.Rehomed frames' [] q.tape q.literals)

include h

/-- An instruction of the program that came about was rewritten from one of the old program. -/
theorem reads (hp : p.tape.Splits) (hip : ip ∈ p.tape.starts)
    (hr : q.tape.Reads ip op' first' second') : ∃ op first second,
      p.tape.Reads ip op first second ∧ op.Becomes frames' first second op' first' second' := by
  obtain ⟨op, first, second, hr₀⟩ := hp.reads hip
  obtain ⟨_, _, _, hr', hb⟩ := h.done ip hip List.not_mem_nil op first second hr₀
  obtain ⟨rfl, rfl, rfl⟩ := hr'.unique hr
  exact ⟨op, first, second, hr₀, hb⟩

/-- Closures are made where they were made. -/
theorem reads_pushBlock (hp : p.tape.Splits) (hip : ip ∈ p.tape.starts) {withContext : Bool} :
    q.tape.Reads ip (.pushBlock withContext) first second ↔
      p.tape.Reads ip (.pushBlock withContext) first second := by
  constructor
  · intro hr
    obtain ⟨op, first₀, second₀, hr₀, hb⟩ := h.reads hp hip hr
    rcases hb.kind with ⟨rfl, hsame⟩ | ⟨_, _, -, hop⟩ | ⟨_, _, -, hop⟩
    · obtain ⟨rfl, rfl⟩ := hsame nofun rfl
      exact hr₀
    · cases hop
    · cases hop
  · intro hr₀
    obtain ⟨_, _, _, hr', hb⟩ := h.done ip hip List.not_mem_nil _ _ _ hr₀
    obtain ⟨rfl, rfl, rfl⟩ := hb.eq_of_plain nofun rfl
    exact hr'

theorem backs (hp : p.tape.Splits) : q.tape.backs = p.tape.backs := by
  refine Tape.backs_congr (h.starts hp) fun ip hip => ?_
  obtain ⟨op, first, second, hr⟩ := hp.reads hip
  obtain ⟨op', first', second', hr', hb⟩ := h.done ip hip List.not_mem_nil op first second hr
  rw [hr.back?, hr'.back?]
  rcases hb.kind with ⟨rfl, hsame⟩ | ⟨_, _, rfl, rfl⟩ | ⟨_, _, rfl, rfl⟩
  · cases op' with
    | jump j wide =>
      obtain ⟨rfl, rfl⟩ := hsame nofun rfl
      rfl
    | _ => rfl
  · rfl
  · rfl

/-- An instruction suits the labels that it suited before it was rewritten. -/
theorem suits (hp : p.Labelled env true ∅ D) (hne : env ≠ []) (hq : q.outline = p.outline)
    (hframes : frames' = p.outline :: env') (hip : ip ∈ p.tape.starts)
    (hr : p.tape.Reads ip op first second) (hr' : q.tape.Reads ip op' first' second')
    (hb : op.Becomes frames' first second op' first' second') :
    q.Suits env' true ∅ D ip op' first' second' := by
  have hs := hp.suits ip hip op first second hr
  have hstarts := h.starts hp.splits
  have hreach : ∀ i, p.Reaches true i → q.Reaches true i := fun i hi =>
    .inl (hstarts ▸ hi.mem_starts)
  have haddr := hb.addresses
  rw [hframes, ← hq] at haddr
  have hreturns : op' = .returnLocal → env' = [] ∨ true = true ∧ ip + 1 = q.tape.size ∧ D ip =
    1 := by
    rintro rfl
    have hop : op = .returnLocal := by
      rcases hb.kind with ⟨hop, -⟩ | ⟨_, _, -, hop⟩ | ⟨_, _, -, hop⟩
      · exact hop.symm
      · cases hop
      · cases hop
    rcases hs.returns hop with hempty | hend
    · exact absurd hempty hne
    · exact .inr (h.size ▸ hend)
  cases he : op.effect? with
  | none =>
    have hplain : op ≠ .returnNonLocal ∧ op.hasContextOperand = false := by
      constructor
      · rintro rfl
        cases he
      · cases op <;> first | rfl | cases he
    obtain ⟨rfl, rfl, rfl⟩ := hb.eq_of_plain hplain.1 hplain.2
    refine hs.transfer hr hr' haddr (fun _ l hl => ?_) hreach (fun _ hx => hx) hreturns
    obtain ⟨l', hl', hmoves⟩ := h.pool _ l hl
    exact ⟨l', hl', by cases hmoves <;> constructor⟩
  | some e =>
    obtain ⟨pops, pushes, hpe, hpops, hfalls⟩ := hs.effect
    obtain rfl : e = (pops, pushes) :=
      Except.ok.inj ((Tape.effect_of_effect? he).symm.trans hpe)
    obtain ⟨he', hf'⟩ := hb.effect?
    refine .of_effect? (he'.trans he) haddr hpops (fun hf => ?_) hreturns
    rw [hf'] at hf
    rw [hb.size]
    exact ⟨hreach _ (hfalls hf).1, (hfalls hf).2⟩

theorem labelled (hp : p.Labelled env true ∅ D) (hne : env ≠ [])
    (hframes : frames' = p.outline :: env') (harguments : q.arguments = p.arguments)
    (hlocals : q.locals = p.locals) (hloops : q.loops = p.loops) : q.Labelled env' true ∅ D where
  splits ip hip := by
    rw [h.starts hp.splits] at hip
    obtain ⟨op, first, second, hr⟩ := hp.splits.reads hip
    obtain ⟨op', _, _, hr', -⟩ := h.done ip hip List.not_mem_nil op first second hr
    exact ⟨op', hr'.opcode, hr'.fits⟩
  start := hp.start
  suits ip hip op' first' second' hr' := by
    rw [h.starts hp.splits] at hip
    obtain ⟨op, first, second, hr, hb⟩ := h.reads hp.splits hip hr'
    have hq : q.outline = p.outline := by
      rw [Program.outline, Program.outline, harguments, hlocals]
    exact h.suits hp hne hq hframes hip hr hr' hb
  opened x hx := absurd hx (Set.notMem_empty x)
  pushed i c hc := by
    obtain ⟨l, hl⟩ : ∃ l, p.literals[i]? = some l := by
      have hlt := (Array.getElem?_eq_some_iff.1 hc).1
      exact ⟨_, Array.getElem?_eq_getElem (h.count ▸ hlt)⟩
    obtain ⟨l', hl', hmoves⟩ := h.pool i l hl
    obtain rfl : l' = .block c := Option.some.inj (hl'.symm.trans hc)
    obtain ⟨b, rfl⟩ : ∃ b, l = .block b := by cases hmoves <;> exact ⟨_, rfl⟩
    obtain ⟨ip, hip, withContext, first, second, hr, hi⟩ := hp.pushed i b hl
    exact ⟨ip, h.starts hp.splits ▸ hip, withContext, first, second,
      (h.reads_pushBlock hp.splits hip).2 hr, hi⟩
  numbered := h.count ▸ hp.numbered
  loops := by rw [hloops, hp.loops, h.backs hp.splits]
  slots := hlocals ▸ hp.slots

theorem encloses (hp : p.Labelled env true ∅ D) (hin : p.Encloses env)
    (hle : env'.length ≤ env.length) (hframes : frames' = p.outline :: env')
    (hq : q.outline = p.outline) : q.Encloses env' := by
  intro ip hip withContext first second b hr' hl'
  rw [h.starts hp.splits] at hip
  have hr := (h.reads_pushBlock hp.splits hip).1 hr'
  obtain ⟨l, hl, hsuits⟩ := (hp.suits ip hip _ _ _ hr).literal rfl
  obtain ⟨b₀, rfl⟩ : ∃ b₀, l = .block b₀ := by
    cases l with
    | block b₀ => exact ⟨b₀, rfl⟩
    | _ => cases hsuits
  obtain ⟨hneeds₀, hlexical₀⟩ := hin ip hip withContext first second b₀ hr hl
  rw [hq, ← hframes]
  cases withContext with
  | true =>
    obtain ⟨b', hb', hneeds, hlexical⟩ := h.closures ip hip List.not_mem_nil first second hr
    obtain rfl : b' = b := by simpa using hb'.symm.trans hl'
    exact ⟨hneeds, hlexical⟩
  | false =>
    -- Without a context, a block is not moved, and fits in anywhere.
    obtain ⟨l', hl'', hmoves⟩ := h.pool _ _ hl
    obtain rfl : l' = .block b := Option.some.inj (hl''.symm.trans hl')
    cases hmoves with
    | stays =>
      rw [hframes]
      exact ⟨hneeds₀, hlexical₀.anywhere (by simp) hneeds₀ (by simp) (Nat.succ_le_succ hle)⟩
    | moves hneeds =>
      rw [hneeds] at hneeds₀
      cases hneeds₀

theorem needsContext (hp : p.tape.Splits) (hneeds : p.needsContext = true) :
    q.needsContext = true := by
  by_contra hnot
  rw [Bool.not_eq_true, Program.needsContext_eq_false_iff] at hnot
  have hfalse : p.needsContext = false := by
    refine Program.needsContext_eq_false_iff.2 fun ip hip op ho => ?_
    obtain ⟨first, second, hr⟩ := hp.reads_at hip ho
    obtain ⟨op', first', second', hr', hb⟩ := h.done ip hip List.not_mem_nil _ _ _ hr
    obtain ⟨hlocal, hleave, hpush⟩ := hnot ip (h.starts hp ▸ hip) op' hr'.opcode
    -- An access to another frame was one before.
    have hlevel : op'.size = 3 → (∀ place, op' = .push place ∨ op' = .pop place →
        q.tape.byteAt (ip + 2) = 0) → (∃ place, op' = .push place ∨ op' = .pop place) →
        p.tape.byteAt (ip + 2) = 0 := by
      rintro hsize hzero ⟨place, hop⟩
      have hz := hzero place hop
      rw [hr'.second (by omega)] at hz
      rw [hr.second (by rw [← hb.size]; omega)]
      by_contra hne
      exact hb.leaves hne hz
    refine ⟨fun place hop => ?_, ?_, ?_⟩
    · rcases hb.kind with ⟨rfl, -⟩ | ⟨_, place', rfl, rfl⟩ | ⟨_, place', rfl, rfl⟩
      · exact hlevel (by rcases hop with rfl | rfl <;> rfl) hlocal ⟨place, hop⟩
      · exact hlevel rfl hlocal ⟨place', .inl rfl⟩
      · exact hlevel rfl hlocal ⟨place', .inr rfl⟩
    · rintro rfl
      rcases hb.kind with ⟨rfl, -⟩ | ⟨_, _, hop, -⟩ | ⟨_, _, hop, -⟩
      · exact hleave rfl
      · cases hop
      · cases hop
    · rintro rfl
      obtain ⟨rfl, -⟩ := hb.eq_of_plain nofun rfl
      exact hpush rfl
  rw [hneeds] at hfalse
  cases hfalse

theorem endsWith (hp : p.tape.Splits) (hends : p.EndsWith op)
    (hop : op = .returnLocal ∨ op = .returnNonLocal) : q.EndsWith op := by
  obtain ⟨ip, hip, ho, hsize⟩ := hends
  obtain ⟨first, second, hr⟩ := hp.reads_at hip ho
  obtain ⟨op', first', second', hr', hb⟩ := h.done ip hip List.not_mem_nil _ _ _ hr
  -- Returns are rewritten to returns.
  obtain rfl : op' = op := by
    rcases hb.kind with ⟨rfl, -⟩ | ⟨_, _, rfl, -⟩ | ⟨_, _, rfl, -⟩
    · rfl
    · simp at hop
    · simp at hop
  exact ⟨ip, h.starts hp ▸ hip, hr'.opcode, by rw [hsize, h.size]⟩

theorem ends (hp : p.tape.Splits) (hends : p.Ends) : q.Ends :=
  hends.imp (h.endsWith hp · (.inl rfl)) (h.endsWith hp · (.inr rfl))

end Program.Rehomed

/-! ### Rehoming -/

/-- A return from the method, made from a closure, has one frame less to leave. -/
theorem rehomeReturn_becomes (hs : Outlines.Spliced frames removed block into frames')
    (hpos : 0 < removed) {tape : Tape} (hr : tape.Reads ip .returnNonLocal first second)
    (h : Opcode.Addresses frames .returnNonLocal first second) :
    removed < first.toNat ∧
      tape.DiffersAt (tape.setIfInBounds (ip + 1) (first - 1)) ip .returnNonLocal ∧
      Tape.Reads (tape.setIfInBounds (ip + 1) (first - 1)) ip .returnNonLocal (first - 1) second ∧
      Opcode.Becomes frames' .returnNonLocal first second .returnNonLocal (first - 1) second := by
  have hsize : Opcode.size .returnNonLocal = 2 := rfl
  have hfits := hr.fits
  have hlt := hs.lt_length
  obtain ⟨-, hlevel⟩ := h
  have hnat : (first - 1).toNat = first.toNat - 1 := toNat_sub_one (by omega)
  refine ⟨by omega, ⟨by simp, fun i hi => ?_⟩,
    ⟨?_, by simpa using hfits, fun h => by omega, hr.noSecond, fun _ => ?_, fun h => by omega⟩,
    ⟨?_, ?_⟩, .inl ⟨rfl, fun h => absurd rfl h⟩, id⟩
  · rw [Array.getElem?_setIfInBounds_ne (by omega)]
  · rw [← hr.opcode, Tape.opcode?, Tape.opcode?, Array.getElem?_setIfInBounds_ne (by omega)]
  · have h₁ : ip + 1 < tape.size := by omega
    simp [Tape.byteAt, Array.getD_eq_getD_getElem?, h₁]
  · rintro hz
    rw [hz] at hnat
    simp at hnat
    omega
  · have := hs.length
    omega

/-- What a program of blocks pushes with a context is one of its literals. -/
theorem Program.blockLiteral_of_reads {p : Program Code} (hp : p.Labelled env true ∅ D)
    (hip : ip ∈ p.tape.starts) {withContext : Bool}
    (hr : p.tape.Reads ip (.pushBlock withContext) first second) :
    ∃ b, p.literals[first.toNat]? = some (.block b) ∧ p.blockLiteral first = .ok b := by
  obtain ⟨l, hl, hsuits⟩ := (hp.suits ip hip _ _ _ hr).literal rfl
  cases l with
  | block b => exact ⟨b, hl, by rw [blockLiteral, literal?, hl]⟩
  | _ => cases hsuits

mutual

/-- A closure can be rehomed, and fits into the frames that are left. -/
theorem Code.rehomed_lexical {c : Code} {env env' : List Outline} {removed : Nat} {level : UInt8}
    {block into : Outline} {m : SlotMap} (h : c.Lexical env)
    (hneeds : c.program.needsContext = true)
    (hs : Outlines.Spliced env removed block into env') (hlevel : level.toNat = removed + 1)
    (hm : m.Maps block into) (next : Nat) :
    ∃ c' next', c.rehomed level m next = .ok (c', next') ∧ c'.Lexical env' ∧
      c'.program.needsContext = true := by
  match c, h, hneeds with
  | .mk k signature holder isBlock p, h, hneeds =>
    obtain ⟨D, hp⟩ : ∃ D, p.Labelled env true ∅ D := h.labelled
    have hin : p.Encloses env := h.encloses
    have hne : env ≠ [] := by
      rintro rfl
      cases hs.away
    have hne' : env' ≠ [] := by
      rintro rfl
      cases hs.target
    have hle : env'.length ≤ env.length := by
      have := hs.length
      omega
    obtain ⟨tape, literals, next', hfrom, hrehomed⟩ := Program.rehomedFrom_rehomed hp hin hs hlevel
      hm
      (.start p (p.outline :: env')) (fun _ => id)
      ((Tape.startsFrom_pairwise p.tape 0).imp fun h => h.ne) next
    let q (maxStack : Nat) : Program Code :=
      ⟨tape, literals, p.arguments, p.locals, maxStack, p.loops⟩
    have hq (k : Nat) : (q k).Labelled env' true ∅ D :=
      hrehomed.labelled (q := q k) hp hne rfl rfl rfl rfl
    have hpos : 0 < tape.size := hrehomed.size ▸ h.nonempty
    -- The check of the new program cannot fail.
    obtain ⟨bound, hmake⟩ := (hq 0).make hpos
    refine ⟨.mk next' signature holder true (q bound), next' + 1, ?_, ?_, ?_⟩
    · rw [Code.rehomed, hfrom]
      dsimp only
      rw [show Program.make tape literals p.arguments p.locals p.loops = _ from hmake]
    · refine .of_encloses (D := D) (hle.trans_lt h.length_lt) ?_ hpos (hq bound)
        (fun _ => hrehomed.ends (q := q bound) hp.splits (h.ends hne))
        (hrehomed.encloses (q := q bound) hp hin hle rfl rfl)
      cases env' with
      | nil => exact absurd rfl hne'
      | cons => rfl
    · exact hrehomed.needsContext (q := q bound) hp.splits hneeds
termination_by (sizeOf c, 0)

theorem Program.rehomedFrom_rehomed {p : Program Code} {left : List Nat} {tape : Tape}
    {literals : Array (Literal Code)} {env env' : List Outline} {removed : Nat} {level : UInt8}
    {block into : Outline} {m : SlotMap} {D : Nat → Nat} (hp : p.Labelled env true ∅ D)
    (hin : p.Encloses env) (hs : Outlines.Spliced env removed block into env')
    (hlevel : level.toNat = removed + 1) (hm : m.Maps block into)
    (h : p.Rehomed (p.outline :: env') left tape literals) (hmem : ∀ ip ∈ left, ip ∈ p.tape.starts)
    (hnodup : left.Nodup) (next : Nat) : ∃ tape' literals' next',
      p.rehomedFrom level m left tape literals next = .ok (tape', literals', next') ∧
        p.Rehomed (p.outline :: env') [] tape' literals' := by
  cases left with
  | nil =>
    rw [Program.rehomedFrom]
    exact ⟨tape, literals, next, rfl, h⟩
  | cons ip left =>
    have hip := hmem ip (List.mem_cons_self ..)
    have hmem' := fun i hi => hmem i (List.mem_cons_of_mem _ hi)
    have hnodup' := (List.nodup_cons.1 hnodup).2
    have hs' := hs.cons p.outline
    obtain ⟨op, first, second, hr⟩ := hp.splits.reads hip
    have hrt := h.pending ip (List.mem_cons_self ..) op first second hr
    have haddr := (hp.suits ip hip op first second hr).addresses
    rw [Program.rehomedFrom]
    split
    · rename_i hop
      rw [hrt.opcode] at hop
      cases hop
    · rename_i place hop
      obtain rfl : op = .push place := Option.some.inj (hrt.opcode.symm.trans hop)
      obtain ⟨tape', op', first', second', ha, hd, hr', hb⟩ :=
        rehomeAccess_becomes hs' hlevel hm (Nat.succ_pos _) (.inl rfl) hrt haddr
      simp only [ha]
      exact Program.rehomedFrom_rehomed hp hin hs hlevel hm
        (h.step_tape hp.splits hmem hnodup hr hd hr' hb nofun) hmem' hnodup' next
    · rename_i place hop
      obtain rfl : op = .pop place := Option.some.inj (hrt.opcode.symm.trans hop)
      obtain ⟨tape', op', first', second', ha, hd, hr', hb⟩ :=
        rehomeAccess_becomes hs' hlevel hm (Nat.succ_pos _) (.inr rfl) hrt haddr
      simp only [ha]
      exact Program.rehomedFrom_rehomed hp hin hs hlevel hm
        (h.step_tape hp.splits hmem hnodup hr hd hr' hb nofun) hmem' hnodup' next
    · rename_i hop
      obtain rfl : op = .returnNonLocal := Option.some.inj (hrt.opcode.symm.trans hop)
      obtain ⟨hlt, hd, hr', hb⟩ := rehomeReturn_becomes hs' (Nat.succ_pos _) hrt haddr
      rw [← hlevel] at hlt
      dsimp only
      rw [hrt.first le_rfl, if_neg fun he => by rw [he] at hlt; exact hlt.ne rfl,
        if_pos (UInt8.lt_iff_toNat_lt.2 hlt)]
      exact Program.rehomedFrom_rehomed hp hin hs hlevel hm
        (h.step_tape hp.splits hmem hnodup hr hd hr' hb nofun) hmem' hnodup' next
    · rename_i hop
      obtain rfl : op = .pushBlock true := Option.some.inj (hrt.opcode.symm.trans hop)
      obtain ⟨b, hl, hb⟩ := Program.blockLiteral_of_reads hp hip hr
      obtain ⟨hneeds, hlexical⟩ := hin ip hip true first second b hr hl
      dsimp only
      rw [hrt.first le_rfl]
      split
      · rename_i hb'
        rw [hb] at hb'
        cases hb'
      · rename_i nested hb'
        obtain rfl : b = nested := Except.ok.inj (hb.symm.trans hb')
        -- The level does not wrap, since the closure fits into its frames.
        have hlevel' : (level + 1).toNat = removed + 1 + 1 := by
          have hdeep := hlexical.length_lt
          have hlt := hs'.lt_length
          rw [UInt8.toNat_add, hlevel]
          exact Nat.mod_eq_of_lt (hlt.trans hdeep)
        obtain ⟨b', next', hrehomed, hlexical', hneeds'⟩ :=
          Code.rehomed_lexical hlexical hneeds hs' hlevel' hm next
        simp only [hrehomed]
        exact Program.rehomedFrom_rehomed hp hin hs hlevel hm
          (h.step_closure hp.splits hmem hnodup hr hl hneeds hneeds' hlexical') hmem' hnodup' next'
    · rename_i op₀ hpush hpop hreturn hclosure hop₀
      obtain rfl : op = op₀ := Option.some.inj (hrt.opcode.symm.trans hop₀)
      refine Program.rehomedFrom_rehomed hp hin hs hlevel hm
        (h.step_tape hp.splits hmem hnodup hr ⟨rfl, fun _ _ => rfl⟩ hrt
          ⟨?_, .inl ⟨rfl, fun _ _ => ⟨rfl, rfl⟩⟩, fun h => h⟩ hclosure) hmem' hnodup' next
      -- What belongs to a method only is not in a block.
      have hlength := hs'.lt_length
      cases op with
      | push place => exact absurd rfl (hpush place)
      | pop place => exact absurd rfl (hpop place)
      | returnNonLocal => exact absurd rfl hreturn
      | pushSelf | returnSelf =>
        simp only [Opcode.Addresses] at haddr
        omega
      | _ => trivial
termination_by (sizeOf p, left.length)
decreasing_by
  all_goals first
    | (have h := Program.sizeOf_blockLiteral ‹_›; decreasing_tactic)
    | decreasing_tactic

end

end Parley
