import Mathlib.Data.Set.Insert
import Parley.World

/-!
# The numbers of codes

What an instruction is specialized to is found by the number of its code and its offset, so no
two codes may have the same number. Codes are numbered while a method is lowered: a block gets
the next number when it is finished, and a closure inside a block that is spliced gets a new one
when it is rehomed.

The codes of a program are among its literals, and in the blocks among them at any depth
(`Literal.Has`). A step of the compiler that starts with literals `S` and the next number `n` and
ends with `S'` and `n'` only adds codes with numbers from `n` on, and no two with the same number
(`Grows`). This holds of rehoming, of splicing, of every step of lowering, and so of lowering a
method (`lower_grows`).
-/

namespace Parley

theorem Except.exists_of_map_eq_ok {ε α β : Type} {x : Except ε α} {f : α → β} {b : β}
    (h : x.map f = .ok b) : ∃ a, x = .ok a ∧ f a = b := by
  cases x with
  | error e => cases h
  | ok a => exact ⟨a, rfl, Except.ok.inj h⟩

/-! ### Parts of literals -/

/-- A value that refers to no class but the first `k`. -/
def Value.Within (k : Nat) : Value → Prop
  | .classRef c => c < k
  | _ => True

/-- A literal that refers to no class but the first `k`. -/
def Literal.Fits (k : Nat) : Literal Code → Prop
  | .value v => v.Within k
  | .block c => ∀ h, c.holder = some h → h < k
  | _ => True

/-- A literal is part of another one: it is that one, or part of a literal of that block. -/
inductive Literal.Has : Literal Code → Literal Code → Prop
  | self (l : Literal Code) : Has l l
  | inside {c : Code} {m l : Literal Code} : m ∈ c.program.literals → Has m l → Has (.block c) l

/-- The parts of the literals of a pool. -/
def parts (pool : Array (Literal Code)) : Set (Literal Code) :=
  {l | ∃ m ∈ pool, m.Has l}

/-- The parts of a code, itself among them. -/
def Code.parts (c : Code) : Set (Literal Code) :=
  {l | (Literal.block c).Has l}

theorem Code.parts_eq (c : Code) :
    c.parts = insert (.block c) (Parley.parts c.program.literals) := by
  ext l
  constructor
  · intro h
    cases h with
    | self => exact .inl rfl
    | inside hm h => exact .inr ⟨_, hm, h⟩
  · rintro (rfl | ⟨m, hm, h⟩)
    · exact .self _
    · exact .inside hm h

theorem Literal.Has.trans {l m n : Literal Code} (h : l.Has m) (h' : m.Has n) : l.Has n := by
  induction h with
  | self => exact h'
  | inside hm _ ih => exact .inside hm (ih h')

theorem Code.parts_subset {c : Code} {pool : Array (Literal Code)} (h : .block c ∈ pool) :
    c.parts ⊆ Parley.parts pool :=
  fun _ hl => ⟨_, h, hl⟩

theorem parts_empty : parts #[] = ∅ := by
  simp [parts]

theorem parts_push (pool : Array (Literal Code)) (l : Literal Code) :
    parts (pool.push l) = parts pool ∪ {m | l.Has m} := by
  ext m
  simp only [parts, Array.mem_push, Set.mem_ofPred_eq, Set.mem_union]
  constructor
  · rintro ⟨n, hn | rfl, h⟩
    · exact .inl ⟨n, hn, h⟩
    · exact .inr h
  · rintro (⟨n, hn, h⟩ | h)
    · exact ⟨n, .inl hn, h⟩
    · exact ⟨l, .inr rfl, h⟩

theorem parts_set_subset (pool : Array (Literal Code)) (i : Nat) (c : Code) :
    parts (pool.setIfInBounds i (.block c)) ⊆ parts pool ∪ c.parts := by
  rintro l ⟨m, hm, h⟩
  rcases Array.mem_or_eq_of_mem_setIfInBounds hm with hm | rfl
  · exact .inl ⟨m, hm, h⟩
  · exact .inr h

/-! ### Sets of literals that grow -/

variable {k n n' n'' : Nat} {S S' S'' T U : Set (Literal Code)}

/-- The codes in a set of literals have numbers below a bound, no two the same. -/
structure Numbered (S : Set (Literal Code)) (n : Nat) : Prop where
  lt : ∀ c, .block c ∈ S → c.id < n
  inj : ∀ c d, .block c ∈ S → .block d ∈ S → c.id = d.id → c = d

/-- From literals `S` come literals `S'`, by making codes with the numbers from `n` to `n'`. -/
structure Grows (k : Nat) (S : Set (Literal Code)) (n : Nat) (S' : Set (Literal Code)) (n' : Nat) :
    Prop where
  le : n ≤ n'
  /-- A code that was not there has one of the new numbers. -/
  new : ∀ c, .block c ∈ S' → .block c ∈ S ∨ n ≤ c.id
  numbered : Numbered S n → Numbered S' n'
  fits : (∀ l ∈ S, l.Fits k) → ∀ l ∈ S', l.Fits k

namespace Grows

theorem refl (S : Set (Literal Code)) (n : Nat) : Grows k S n S n :=
  ⟨le_rfl, fun _ => .inl, id, id⟩

theorem trans (h : Grows k S n S' n') (h' : Grows k S' n' S'' n'') : Grows k S n S'' n'' where
  le := h.le.trans h'.le
  new c hc := by
    rcases h'.new c hc with hc | hc
    · exact h.new c hc
    · exact .inr (h.le.trans hc)
  numbered := h'.numbered ∘ h.numbered
  fits := h'.fits ∘ h.fits

/-- Fewer literals come of more. -/
theorem subset (h : Grows k S n S' n') (hS : S ⊆ T) (hS' : U ⊆ S') : Grows k T n U n' where
  le := h.le
  new c hc := (h.new c (hS' hc)).imp_left (hS ·)
  numbered hT := by
    have := h.numbered ⟨fun c hc => hT.lt c (hS hc), fun c d hc hd => hT.inj c d (hS hc) (hS hd)⟩
    exact ⟨fun c hc => this.lt c (hS' hc), fun c d hc hd => this.inj c d (hS' hc) (hS' hd)⟩
  fits hT l hl := h.fits (fun m hm => hT m (hS hm)) l (hS' hl)

/-- Other literals may be around. -/
theorem union (h : Grows k S n S' n') (U : Set (Literal Code)) :
    Grows k (U ∪ S) n (U ∪ S') n' where
  le := h.le
  new c := by
    rintro (hc | hc)
    · exact .inl (.inl hc)
    · exact (h.new c hc).imp_left .inr
  numbered hU := by
    have hS' := h.numbered ⟨fun c hc => hU.lt c (.inr hc),
      fun c d hc hd => hU.inj c d (.inr hc) (.inr hd)⟩
    -- A code that is around has a number below `n`, so it can only be confused with an old one.
    have key : ∀ c d, Literal.block c ∈ U → Literal.block d ∈ S' → c.id = d.id → c = d := by
      intro c d hc hd he
      rcases h.new d hd with hd | hd
      · exact hU.inj c d (.inl hc) (.inr hd) he
      · have := hU.lt c (.inl hc)
        omega
    refine ⟨?_, ?_⟩
    · rintro c (hc | hc)
      · exact (hU.lt c (.inl hc)).trans_le h.le
      · exact hS'.lt c hc
    · rintro c d (hc | hc) (hd | hd) he
      · exact hU.inj c d (.inl hc) (.inl hd) he
      · exact key c d hc hd he
      · exact (key d c hd hc he.symm).symm
      · exact hS'.inj c d hc hd he
  fits hU l := by
    rintro (hl | hl)
    · exact hU l (.inl hl)
    · exact h.fits (fun m hm => hU m (.inr hm)) l hl

/-- A code made with the next number. -/
theorem code (c : Code) (hid : c.id = n) (hfits : (∀ l ∈ S, l.Fits k) → (Literal.block c).Fits k) :
    Grows k S n (insert (.block c) S) (n + 1) where
  le := n.le_succ
  new d := by
    rintro (hd | hd)
    · cases hd
      exact .inr hid.ge
    · exact .inl hd
  numbered hS := by
    -- The codes that are there have lower numbers than the new one.
    have key : ∀ d, Literal.block d ∈ S → d.id ≠ c.id := fun d hd => by
      have := hS.lt d hd
      omega
    refine ⟨?_, ?_⟩
    · rintro d (hd | hd)
      · cases hd
        omega
      · exact (hS.lt d hd).trans n.lt_succ_self
    · rintro d e (hd | hd) (he | he) hde
      · cases hd
        cases he
        rfl
      · cases hd
        exact absurd hde.symm (key e he)
      · cases he
        exact absurd hde (key d hd)
      · exact hS.inj d e hd he hde
  fits hS l := by
    rintro (rfl | hl)
    · exact hfits hS
    · exact hS l hl

/-- A literal that is no block. -/
theorem literal {l : Literal Code} (hl : ∀ c, l ≠ .block c) (hf : l.Fits k) :
    Grows k S n (S ∪ {m | l.Has m}) n := by
  -- Only closures hold literals of their own.
  have hm : ∀ m, l.Has m → m = l := by
    intro m h
    cases h with
    | self => rfl
    | inside => exact absurd rfl (hl _)
  have key : ∀ c, Literal.block c ∈ S ∪ {m | l.Has m} → .block c ∈ S := by
    rintro c (hc | hc)
    · exact hc
    · exact absurd (hm _ hc).symm (hl c)
  refine ⟨le_rfl, fun c hc => .inl (key c hc), fun hS => ?_, fun hS m => ?_⟩
  · exact ⟨fun c hc => hS.lt c (key c hc), fun c d hc hd => hS.inj c d (key c hc) (key d hd)⟩
  · rintro (h | h)
    · exact hS m h
    · exact hm m h ▸ hf

end Grows

/-! ### Rehoming -/

theorem Program.make_literals {tape : Tape} {literals : Array (Literal Code)}
    {arguments locals : Array Variable} {loops : List LoopMark} {p : Program Code}
    (h : Program.make tape literals arguments locals loops = .ok p) : p.literals = literals := by
  rw [Program.make] at h
  split at h
  · cases h
  · injection h with h
    rw [← h]

theorem Program.blockLiteral_mem {p : Program Code} {index : UInt8} {c : Code}
    (h : p.blockLiteral index = .ok c) : .block c ∈ p.literals := by
  unfold blockLiteral literal? at h
  split at h
  · rename_i hl
    cases h
    exact Array.mem_of_getElem? hl
  · cases h

mutual

/-- Rehoming a closure makes codes with the numbers it takes. -/
theorem Code.rehomed_grows (k : Nat) {c c' : Code} {removed : UInt8} {n n' : Nat} {m : SlotMap}
    (h : c.rehomed removed m n = .ok (c', n')) : Grows k c.parts n c'.parts n' := by
  match c, h with
  | .mk id signature holder isBlock program, h =>
    rw [Code.rehomed] at h
    split at h
    · cases h
    · rename_i tape literals next hfrom
      split at h
      · cases h
      · rename_i rebuilt hmake
        cases h
        let old : Literal Code := .block (.mk id signature holder isBlock program)
        have hp : Grows k (insert old (parts program.literals)) n (insert old (parts literals))
            next := by
          rw [Set.insert_eq, Set.insert_eq]
          exact ((Program.rehomedFrom_grows k hfrom).subset
            (Set.union_subset Set.Subset.rfl Set.Subset.rfl) Set.subset_union_right).union _
        -- The closure itself is finished last, for the class that the old one was for.
        have hc : Grows k (insert old (parts literals)) next
            (insert (.block (.mk next signature holder true rebuilt)) (insert old (parts literals)))
            (next + 1) :=
          .code (.mk next signature holder true rebuilt) rfl fun hf => hf old (.inl rfl)
        rw [Code.parts_eq, Code.parts_eq,
          show (Code.mk next signature holder true rebuilt).program.literals = literals from
            Program.make_literals hmake]
        exact (hp.trans hc).subset Set.Subset.rfl
          (Set.insert_subset_insert (Set.subset_insert _ _))
termination_by (sizeOf c, 0)

theorem Program.rehomedFrom_grows (k : Nat) {p : Program Code} {removed : UInt8} {n n' : Nat}
    {m : SlotMap} {starts : List Nat} {tape tape' : Tape}
    {literals literals' : Array (Literal Code)}
    (h : p.rehomedFrom removed m starts tape literals n = .ok (tape', literals', n')) :
    Grows k (parts p.literals ∪ parts literals) n (parts p.literals ∪ parts literals') n' := by
  cases starts with
  | nil =>
    rw [Program.rehomedFrom] at h
    cases h
    exact .refl _ _
  | cons ip rest =>
    rw [Program.rehomedFrom] at h
    split at h
    · cases h
    · split at h
      · cases h
      · exact Program.rehomedFrom_grows k h
    · split at h
      · cases h
      · exact Program.rehomedFrom_grows k h
    · dsimp only at h
      split at h
      · cases h
      · exact Program.rehomedFrom_grows k h
    · dsimp only at h
      split at h
      · cases h
      · rename_i nested hnested
        split at h
        · cases h
        · rename_i nested' next hrehomed
          -- The nested closure is a literal of the program, and its copy takes that place.
          have hmem : nested.parts ⊆ parts p.literals :=
            Code.parts_subset (Program.blockLiteral_mem hnested)
          have hg := ((Code.rehomed_grows k hrehomed).union
            (parts p.literals ∪ parts literals)).subset
            (T := parts p.literals ∪ parts literals)
            (Set.union_subset Set.Subset.rfl (hmem.trans Set.subset_union_left))
            (U := parts p.literals ∪
              parts (literals.setIfInBounds (tape.byteAt (ip + 1)).toNat (.block nested')))
            (Set.union_subset (Set.subset_union_left.trans Set.subset_union_left)
              ((parts_set_subset _ _ _).trans
                (Set.union_subset_union_left _ Set.subset_union_right)))
          exact hg.trans (Program.rehomedFrom_grows k h)
    · exact Program.rehomedFrom_grows k h
termination_by (sizeOf p, starts.length)
decreasing_by
  all_goals first
    | (have h := Program.sizeOf_blockLiteral ‹_›; decreasing_tactic)
    | decreasing_tactic

end

/-! ### Writing drafts -/

namespace Draft

variable {d d' : Draft}

theorem addArgument_literals {name : String} (h : d.addArgument name = .ok d') :
    d'.literals = d.literals := by
  rw [addArgument] at h
  split at h
  · cases h
  · cases h
    rfl

theorem addLocal_literals {name : String} (h : d.addLocal name = .ok d') :
    d'.literals = d.literals := by
  rw [addLocal] at h
  split at h
  · cases h
  · cases h
    rfl

theorem mergeLocal_literals {v : Variable} {slot : UInt8} (h : d.mergeLocal v = .ok (slot, d')) :
    d'.literals = d.literals := by
  rw [mergeLocal] at h
  split at h
  · cases h
    rfl
  · split at h
    · cases h
    · cases h
      rfl

theorem mergeAll_literals {vs : List Variable} {slots : List UInt8}
    (h : d.mergeAll vs = .ok (slots, d')) : d'.literals = d.literals := by
  induction vs generalizing d slots with
  | nil =>
    cases h
    rfl
  | cons v rest ih =>
    rw [mergeAll] at h
    split at h
    · cases h
    · rename_i hv
      split at h
      · cases h
      · rename_i hrest
        cases h
        exact (ih hrest).trans (mergeLocal_literals hv)

theorem mergeBlock_literals {p : Program Code} {m : SlotMap} (h : d.mergeBlock p = .ok (m, d')) :
    d'.literals = d.literals := by
  rw [mergeBlock] at h
  split at h
  · cases h
  · rename_i ha
    split at h
    · cases h
    · rename_i hl
      cases h
      exact (mergeAll_literals hl).trans (mergeAll_literals ha)

theorem patch_literals {ip target : Nat} (h : d.patch ip target = .ok d') :
    d'.literals = d.literals := by
  rw [patch] at h
  split at h
  · split at h
    · cases h
    · split at h
      · cases h
      · dsimp only at h
        split at h
        · cases h
          rfl
        · split at h
          · cases h
            rfl
          · cases h
  · cases h

theorem emitBack_literals {head : Nat} (h : d.emitBack head = .ok d') :
    d'.literals = d.literals := by
  unfold emitBack at h
  extract_lets ip distance at h
  split at h
  · cases h
    rfl
  · cases h

theorem emitLiteral_subset {op : Opcode} {l : Literal Code} (h : d.emitLiteral op l = .ok d') :
    parts d'.literals ⊆ parts d.literals ∪ {m | l.Has m} := by
  unfold emitLiteral addLiteral at h
  split at h
  · cases h
  · rename_i hadd
    cases h
    split at hadd
    · cases hadd
      exact Set.subset_union_left
    · split at hadd
      · cases hadd
      · cases hadd
        exact (parts_push _ _).subset

theorem clearLocals_literals (slots : List UInt8) :
    (d.clearLocals slots).literals = d.literals := by
  rw [clearLocals]
  induction slots generalizing d with
  | nil => rfl
  | cons slot rest ih => exact ih

end Draft

/-! ### Splicing -/

namespace Walk

variable {w w' : Walk} {p : Program Code} {m : SlotMap}

theorem writeLiteral_parts {op : Opcode} {l : Literal Code} (h : w.writeLiteral op l = .ok w') :
    w'.next = w.next ∧ parts w'.draft.literals ⊆ parts w.draft.literals ∪ {n | l.Has n} := by
  obtain ⟨d, he, rfl⟩ := Except.exists_of_map_eq_ok h
  exact ⟨rfl, Draft.emitLiteral_subset he⟩

theorem write_literals {op : Opcode} {operands : List UInt8} (h : w.write op operands = .ok w') :
    w'.draft.literals = w.draft.literals ∧ w'.next = w.next := by
  cases h
  exact ⟨rfl, rfl⟩

theorem carryBack_literals {ip : Nat} {wide : Bool} (h : w.carryBack p ip wide = .ok w') :
    w'.draft.literals = w.draft.literals ∧ w'.next = w.next := by
  unfold carryBack at h
  split at h
  · cases h
  · split at h
    · cases h
    · split at h
      · cases h
      · obtain ⟨d, he, rfl⟩ := Except.exists_of_map_eq_ok h
        exact ⟨Draft.emitBack_literals he, rfl⟩

/-- Carrying an instruction over adds nothing to the literals, or a literal of the block, or a
    closure of the block rehomed. -/
theorem carry_cases {last ip : Nat} {op : Opcode} (h : w.carry p m last ip op = .ok w') :
    (w'.draft.literals = w.draft.literals ∧ w'.next = w.next) ∨
      (∃ l ∈ p.literals, w'.next = w.next ∧
        parts w'.draft.literals ⊆ parts w.draft.literals ∪ {n | l.Has n}) ∨
      ∃ nested nested', .block nested ∈ p.literals ∧
        nested.rehomed 1 m w.next = .ok (nested', w'.next) ∧
          parts w'.draft.literals ⊆ parts w.draft.literals ∪ nested'.parts := by
  unfold carry at h
  extract_lets first level at h
  cases op with
  | push place | pop place =>
    -- A variable of the block has a place in the scope around it, all others are one level nearer.
    left
    cases place with
    | temporary | argument =>
      dsimp only at h
      split at h
      · split at h
        · cases h
        · exact write_literals h
      · exact write_literals h
    | field =>
      dsimp only at h
      split at h
      · cases h
      · exact write_literals h
  | pushBlock withContext =>
    cases withContext with
    | false =>
      dsimp only at h
      split at h
      · cases h
      · rename_i l hl
        exact .inr (.inl ⟨l, Array.mem_of_getElem? hl, writeLiteral_parts h⟩)
    | true =>
      -- The only case in which a code gets a new number.
      dsimp only at h
      split at h
      · cases h
      · rename_i nested hn
        split at h
        · cases h
        · rename_i nested' next hr
          obtain ⟨hnext, hsub⟩ := writeLiteral_parts h
          exact .inr (.inr ⟨nested, nested', Program.blockLiteral_mem hn, hnext ▸ hr, hsub⟩)
  | pushConstant | pushGlobal | send _ =>
    dsimp only at h
    split at h
    · cases h
    · rename_i l hl
      exact .inr (.inl ⟨l, Array.mem_of_getElem? hl, writeLiteral_parts h⟩)
  | returnLocal =>
    dsimp only at h
    split at h
    · cases h
      exact .inl ⟨rfl, rfl⟩
    · cases h
  | returnNonLocal =>
    dsimp only at h
    split at h
    · cases h
    · split at h
      · exact .inl (write_literals h)
      · exact .inl (write_literals h)
  | jump j wide =>
    left
    cases j with
    | back => exact carryBack_literals h
    | always | test _ _ | greater =>
      cases h
      exact ⟨rfl, rfl⟩
  | pushSelf | returnSelf | quickened _ => cases h
  | halt | dup | dupSecond | pushNil | pushZero | pushOne | drop | step _ =>
    exact .inl (write_literals h)

/-- The literals that a walk deals with: those of the block and those of the draft. -/
def reach (w : Walk) (p : Program Code) : Set (Literal Code) :=
  parts p.literals ∪ parts w.draft.literals

theorem carry_grows (k : Nat) {last ip : Nat} {op : Opcode} (h : w.carry p m last ip op = .ok w') :
    Grows k (w.reach p) w.next (w'.reach p) w'.next := by
  rcases carry_cases h with ⟨hl, hn⟩ | ⟨l, hl, hn, hsub⟩ | ⟨nested, nested', hmem, hr, hsub⟩
  · rw [reach, reach, hl, hn]
    exact .refl _ _
  · rw [hn]
    have hlp : {n | l.Has n} ⊆ parts p.literals := fun _ hm => ⟨l, hl, hm⟩
    exact (Grows.refl _ _).subset Set.Subset.rfl (Set.union_subset Set.subset_union_left
      (hsub.trans (Set.union_subset Set.subset_union_right
        (hlp.trans Set.subset_union_left))))
  · have hlp : nested.parts ⊆ parts p.literals := Code.parts_subset hmem
    exact ((Code.rehomed_grows k hr).union (w.reach p)).subset
      (Set.union_subset Set.Subset.rfl (hlp.trans Set.subset_union_left))
      (Set.union_subset (Set.subset_union_left.trans Set.subset_union_left)
        (hsub.trans (Set.union_subset_union_left _ Set.subset_union_right)))

theorem arrive_literals {ip : Nat} {d d' : Draft} {forward left : List (Nat × Nat)}
    (h : arrive ip d forward = .ok (left, d')) : d'.literals = d.literals := by
  induction forward generalizing d with
  | nil =>
    cases h
    rfl
  | cons entry rest ih =>
    rw [arrive] at h
    split at h
    · cases h
      rfl
    · split at h
      · cases h
      · split at h
        · cases h
        · rename_i hp
          exact (ih h).trans (Draft.patch_literals hp)

theorem land_literals {size last : Nat} {d d' : Draft} {forward : List (Nat × Nat)}
    (h : land size last d forward = .ok d') : d'.literals = d.literals := by
  induction forward generalizing d with
  | nil =>
    cases h
    rfl
  | cons entry rest ih =>
    rw [land] at h
    split at h
    · cases h
    · split at h
      · cases h
      · rename_i hp
        exact (ih h).trans (Draft.patch_literals hp)

theorem advance_grows (k : Nat) {last ip : Nat} (h : w.advance p m last ip = .ok w') :
    Grows k (w.reach p) w.next (w'.reach p) w'.next := by
  rw [advance] at h
  split at h
  · cases h
  · rename_i harrive
    split at h
    · cases h
    · split at h
      · cases h
      -- Jumps that arrive here are patched first, which adds no literals.
      · have hg := carry_grows k h
        rwa [reach, arrive_literals harrive] at hg

theorem carryAll_grows (k : Nat) {last : Nat} {starts : List Nat}
    (h : w.carryAll p m last starts = .ok w') :
    Grows k (w.reach p) w.next (w'.reach p) w'.next := by
  induction starts generalizing w with
  | nil =>
    cases h
    exact .refl _ _
  | cons ip rest ih =>
    rw [carryAll] at h
    split at h
    · cases h
    · rename_i ha
      exact (advance_grows k ha).trans (ih h)

theorem finish_literals {last : Nat} {d : Draft} (h : w.finish p last = .ok d) :
    d.literals = w.draft.literals := by
  rw [finish] at h
  split at h
  · cases h
  · rename_i hland
    split at h
    · cases h
    · cases h
    · cases h
      exact land_literals hland

end Walk

/-- Splicing a block makes codes with the numbers it takes. -/
theorem Draft.splice_grows (k : Nat) {d d' : Draft} {block : Code}
    (h : d.splice block n = .ok (d', n')) :
    Grows k (parts d.literals ∪ block.parts) n (parts d'.literals) n' := by
  rw [splice] at h
  dsimp only at h
  split at h
  · cases h
  · rename_i hmerge
    split at h
    · cases h
    · rename_i hcarry
      split at h
      · cases h
      · rename_i hfinish
        cases h
        -- Only carrying the instructions over adds to the pool.
        have hg := Walk.carryAll_grows k hcarry
        rw [Walk.reach, Walk.reach, Draft.clearLocals_literals,
          Draft.mergeBlock_literals hmerge] at hg
        rw [Walk.finish_literals hfinish]
        refine hg.subset (Set.union_subset ?_ Set.subset_union_left) Set.subset_union_right
        rw [Code.parts_eq]
        exact (Set.subset_insert _ _).trans Set.subset_union_right

end Parley
