import Mathlib.Data.List.Forall2
import Parley.Proofs.Numbering

/-!
# Merging variables into drafts

The variables of a block that is spliced become locals of the draft it is spliced into. In a draft
that was made by writing (`Draft.Built`) every local has the slot that its place says, so a slot is
that of one declaration only: variables of the block share a slot when they are of the same
declaration, and then only, and they share one with an earlier local only then as well
(`SlotMap.Houses`).

* `Draft.Built.slots`, `Draft.Built.literals_le`: what is true of every draft that is written;
* `Draft.mergeLocal_cases`: a variable has a slot already, or gets the next one;
* `Draft.mergeAll_merges`: variables are merged one after another;
* `Draft.mergeBlock_houses`: the variables of a block are merged;
* `Draft.mergeBlock_argument`: an argument that has a slot already gets that one;
* `Draft.Built.splice`: splicing is made of the ways of writing.
-/

namespace Parley

namespace Draft

variable {d d' : Draft}

/-- The drafts that writing makes of an empty one. -/
inductive Built : Draft → Prop
  | empty (scope : Nat) (depth : UInt8) : Built (.empty scope depth)
  | emit {d : Draft} (op : Opcode) (operands : List UInt8) : Built d → Built (d.emit op operands)
  | addLiteral {d d' : Draft} {l : Literal Code} {index : UInt8} : Built d →
      d.addLiteral l = .ok (index, d') → Built d'
  | addArgument {d d' : Draft} {name : String} : Built d → d.addArgument name = .ok d' → Built d'
  | addLocal {d d' : Draft} {name : String} : Built d → d.addLocal name = .ok d' → Built d'
  | mergeLocal {d d' : Draft} {v : Variable} {slot : UInt8} : Built d →
      d.mergeLocal v = .ok (slot, d') → Built d'
  | patch {d d' : Draft} {ip target : Nat} : Built d → d.patch ip target = .ok d' → Built d'
  | emitBack {d d' : Draft} {head : Nat} : Built d → d.emitBack head = .ok d' → Built d'

/-! ### What the ways of writing do -/

/-- A variable has a slot already, or gets the next one. -/
theorem mergeLocal_cases {v : Variable} {slot : UInt8} (h : d.mergeLocal v = .ok (slot, d')) :
    d' = d ∧ (∃ w ∈ d.locals, w.sameAs v ∧ w.slot = slot) ∨
      d.locals.size ≤ 255 ∧ slot = UInt8.ofNat d.locals.size ∧
        d' = { d with locals := d.locals.push ⟨v.name, .temporary, d.depth, slot, v.origin⟩ } := by
  rw [Draft.mergeLocal] at h
  split at h
  · rename_i w hw
    cases h
    exact .inl ⟨rfl, w, Array.mem_of_find?_eq_some hw,
      Array.find?_some (p := fun u : Variable => u.sameAs v) hw, rfl⟩
  · split at h
    · cases h
    · cases h
      exact .inr ⟨by omega, rfl, rfl⟩

theorem addLocal_cases {name : String} (h : d.addLocal name = .ok d') : d.locals.size ≤ 255 ∧
    d' = { d with locals :=
      d.locals.push ⟨name, .temporary, d.depth, UInt8.ofNat d.locals.size, d.scope⟩ } := by
  rw [Draft.addLocal] at h
  split at h
  · cases h
  · cases h
    exact ⟨by omega, rfl⟩

/-- A literal has a place already, or gets the next one. -/
theorem addLiteral_cases {l : Literal Code} {index : UInt8}
    (h : d.addLiteral l = .ok (index, d')) :
    d' = d ∧ (∃ i, d.literals.findIdx? (fun m => m.sameAs l) = some i ∧ index = UInt8.ofNat i) ∨
      d.literals.size ≤ 255 ∧ index = UInt8.ofNat d.literals.size ∧
        d' = { d with literals := d.literals.push l } := by
  rw [Draft.addLiteral] at h
  split at h
  · rename_i i hi
    cases h
    exact .inl ⟨rfl, i, hi, rfl⟩
  · split at h
    · cases h
    · cases h
      exact .inr ⟨by omega, rfl, rfl⟩

/-- A forward jump is given a distance that the form it takes has room for. -/
theorem patch_cases {ip target : Nat} (h : d.patch ip target = .ok d') :
    ∃ j narrow wide, d.tape.opcode? ip = some (.jump j narrow) ∧ j ≠ .back ∧ ip ≤ target ∧
      target - ip ≤ 65535 ∧ (wide = false → target - ip ≤ 255) ∧
        d' = d.overwrite ip (.jump j wide) (distanceBytes (target - ip)) := by
  rw [Draft.patch] at h
  split at h
  · rename_i j narrow ho
    split at h
    · cases h
    · rename_i hj
      split at h
      · cases h
      · rename_i hle
        dsimp only at h
        split at h
        · cases h
          exact ⟨j, narrow, false, ho, hj, by omega, by omega, fun _ => by assumption, rfl⟩
        · split at h
          · cases h
            exact ⟨j, narrow, true, ho, hj, by omega, by assumption, Bool.noConfusion, rfl⟩
          · cases h
  · cases h

/-- A jump back is written with a distance that the form it takes has room for. -/
theorem emitBack_cases {head : Nat} (hle : head ≤ d.position) (h : d.emitBack head = .ok d') :
    ∃ wide, d.position - head ≤ 65535 ∧ (wide = false → d.position - head ≤ 255) ∧
      d' = { d.emit (.jump .back wide) [(distanceBytes (d.position - head)).1,
          (distanceBytes (d.position - head)).2] with
        loops := d.loops ++ [⟨head, d.position⟩] } := by
  unfold Draft.emitBack at h
  extract_lets ip distance at h
  have hdistance : distance = d.position - head := if_pos hle
  split at h
  · rename_i hlong
    cases h
    rw [← hdistance]
    exact ⟨decide (255 < distance), hlong, fun hw => by simpa using hw, rfl⟩
  · cases h

theorem emitBack_variables {head : Nat} (h : d.emitBack head = .ok d') :
    d'.literals = d.literals ∧ d'.locals = d.locals := by
  unfold Draft.emitBack at h
  extract_lets ip distance at h
  split at h
  · cases h
    exact ⟨rfl, rfl⟩
  · cases h

/-! ### Drafts that are written -/

/-- A local with the slot that its place says may be added. -/
theorem slots_push {locals : Array Variable} {v : Variable}
    (h : ∀ (i : Nat) v, locals[i]? = some v → v.slot.toNat = i) (hsize : locals.size ≤ 255)
    (hv : v.slot = UInt8.ofNat locals.size) :
    ∀ (i : Nat) w, (locals.push v)[i]? = some w → w.slot.toNat = i := by
  intro i w hw
  rw [Array.getElem?_push] at hw
  split at hw
  · rename_i hi
    cases hw
    rw [hv, UInt8.toNat_ofNat']
    omega
  · exact h i w hw

namespace Built

/-- Every local has the slot that its place says. -/
theorem slots (h : d.Built) : ∀ (i : Nat) v, d.locals[i]? = some v → v.slot.toNat = i := by
  induction h with
  | empty => simp [Draft.empty]
  | emit _ _ _ ih => exact ih
  | addLiteral _ hadd ih =>
    rcases addLiteral_cases hadd with ⟨rfl, -⟩ | ⟨-, -, rfl⟩
    · exact ih
    · exact ih
  | addArgument _ hadd ih =>
    rw [Draft.addArgument] at hadd
    split at hadd
    · cases hadd
    · cases hadd
      exact ih
  | addLocal _ hadd ih =>
    obtain ⟨hsize, rfl⟩ := addLocal_cases hadd
    exact slots_push ih hsize rfl
  | mergeLocal _ hmerge ih =>
    rcases mergeLocal_cases hmerge with ⟨rfl, -⟩ | ⟨hsize, rfl, rfl⟩
    · exact ih
    · exact slots_push ih hsize rfl
  | patch _ hpatch ih =>
    obtain ⟨j, narrow, wide, -, -, -, -, -, rfl⟩ := patch_cases hpatch
    exact ih
  | emitBack _ hback ih => exact (emitBack_variables hback).2 ▸ ih

/-- There are no more literals than a byte can number. -/
theorem literals_le (h : d.Built) : d.literals.size ≤ 256 := by
  induction h with
  | empty => simp [Draft.empty]
  | emit _ _ _ ih => exact ih
  | addLiteral _ hadd ih =>
    rcases addLiteral_cases hadd with ⟨rfl, -⟩ | ⟨hsize, -, rfl⟩
    · exact ih
    · rw [Array.size_push]
      omega
  | addArgument _ hadd ih =>
    rw [Draft.addArgument] at hadd
    split at hadd
    · cases hadd
    · cases hadd
      exact ih
  | addLocal _ hadd ih =>
    obtain ⟨-, rfl⟩ := addLocal_cases hadd
    exact ih
  | mergeLocal _ hmerge ih =>
    rcases mergeLocal_cases hmerge with ⟨rfl, -⟩ | ⟨-, -, rfl⟩
    · exact ih
    · exact ih
  | patch _ hpatch ih =>
    obtain ⟨j, narrow, wide, -, -, -, -, -, rfl⟩ := patch_cases hpatch
    exact ih
  | emitBack _ hback ih => exact (emitBack_variables hback).1 ▸ ih

end Built

/-! ### Merging -/

/-- A draft with further locals, and otherwise the same. -/
structure Merges (d d' : Draft) : Prop where
  rest : d' = { d with locals := d'.locals }
  locals : ∀ (i : Nat) v, d.locals[i]? = some v → d'.locals[i]? = some v
  built : d.Built → d'.Built

theorem Merges.refl (d : Draft) : d.Merges d :=
  ⟨rfl, fun _ _ h => h, id⟩

theorem Merges.trans {d'' : Draft} (h : d.Merges d') (h' : d'.Merges d'') : d.Merges d'' where
  rest := by
    rw [h'.rest, h.rest]
  locals i v hv := h'.locals i v (h.locals i v hv)
  built := h'.built ∘ h.built

theorem mergeLocal_merges {v : Variable} {slot : UInt8} (h : d.mergeLocal v = .ok (slot, d')) :
    d.Merges d' where
  rest := by
    rcases mergeLocal_cases h with ⟨rfl, -⟩ | ⟨-, -, rfl⟩ <;> rfl
  locals i w hw := by
    rcases mergeLocal_cases h with ⟨rfl, -⟩ | ⟨-, -, rfl⟩
    · exact hw
    · rw [Array.getElem?_push_lt (Array.getElem?_eq_some_iff.1 hw).1]
      exact congrArg some (Array.getElem?_eq_some_iff.1 hw).2
  built hd := hd.mergeLocal h

end Draft

/-- A variable has a slot among some locals: the local there is of the same declaration. -/
def Variable.HasSlot (locals : Array Variable) (v : Variable) (slot : UInt8) : Prop :=
  ∃ w, locals[slot.toNat]? = some w ∧ w.sameAs v

theorem Variable.sameAs_iff {v w : Variable} :
    v.sameAs w ↔ v.origin = w.origin ∧ v.name = w.name := by
  simp [sameAs]

/-- The slot in which a variable is found among some locals: that of the first one of its
    declaration. -/
def Variable.slot? (locals : Array Variable) (v : Variable) : Option UInt8 :=
  (locals.find? fun w => w.sameAs v).map Variable.slot

/-- Variables that have one slot are of one declaration. -/
theorem Variable.HasSlot.sameAs {locals : Array Variable} {v v' : Variable} {slot : UInt8}
    (h : v.HasSlot locals slot) (h' : v'.HasSlot locals slot) : v.sameAs v' := by
  obtain ⟨w, hw, hv⟩ := h
  obtain ⟨w', hw', hv'⟩ := h'
  obtain rfl : w = w' := Option.some.inj (hw.symm.trans hw')
  rw [Variable.sameAs_iff] at hv hv' ⊢
  exact ⟨hv.1.symm.trans hv'.1, hv.2.symm.trans hv'.2⟩

namespace Draft

variable {d d' : Draft}

theorem mergeLocal_hasSlot (hd : d.Built) {v : Variable} {slot : UInt8}
    (h : d.mergeLocal v = .ok (slot, d')) : v.HasSlot d'.locals slot := by
  rcases mergeLocal_cases h with ⟨rfl, w, hw, hsame, rfl⟩ | ⟨hsize, rfl, rfl⟩
  · obtain ⟨i, hi⟩ := Array.getElem?_of_mem hw
    refine ⟨w, ?_, hsame⟩
    rw [hd.slots i w hi, hi]
  · have htoNat : (UInt8.ofNat d.locals.size).toNat = d.locals.size := by
      rw [UInt8.toNat_ofNat']
      omega
    refine ⟨⟨v.name, .temporary, d.depth, UInt8.ofNat d.locals.size, v.origin⟩, ?_,
      Variable.sameAs_iff.2 ⟨rfl, rfl⟩⟩
    rw [htoNat, Array.getElem?_push_size]

/-- Variables are merged one after another. -/
theorem mergeAll_merges (hd : d.Built) {vs : List Variable} {slots : List UInt8}
    (h : d.mergeAll vs = .ok (slots, d')) :
    d.Merges d' ∧ List.Forall₂ (Variable.HasSlot d'.locals) vs slots := by
  induction vs generalizing d slots with
  | nil =>
    cases h
    exact ⟨.refl _, .nil⟩
  | cons v rest ih =>
    rw [mergeAll] at h
    split at h
    · cases h
    · rename_i slot d₁ hv
      split at h
      · cases h
      · rename_i slots' d₂ hrest
        cases h
        have hmerges := mergeLocal_merges hv
        obtain ⟨hmerges', hall⟩ := ih (hmerges.built hd) hrest
        obtain ⟨w, hw, hsame⟩ := mergeLocal_hasSlot hd hv
        exact ⟨hmerges.trans hmerges', .cons ⟨w, hmerges'.locals _ w hw, hsame⟩ hall⟩

end Draft

/-- A slot that the map gives a variable of a block. -/
def SlotMap.Gives (m : SlotMap) (p : Program Code) (v : Variable) (slot : UInt8) : Prop :=
  (∃ i : Nat, p.arguments[i]? = some v ∧ m.arguments[i]? = some (some slot)) ∨
    ∃ i : Nat, p.locals[i]? = some v ∧ m.locals[i]? = some slot

/-- The variables of a block have slots: `before` are the locals that were there, `after` those
    that are there now. -/
structure SlotMap.Houses (m : SlotMap) (p : Program Code) (before after : Array Variable) :
    Prop where
  self : m.arguments[0]? = some none
  arguments : ∀ i, 0 < i → i < p.arguments.size → ∃ slot, m.arguments[i]? = some (some slot)
  locals : m.locals.length = p.locals.size
  placed : ∀ v slot, m.Gives p v slot → v.HasSlot after slot
  /-- Different declarations of the block have different slots. -/
  apart : ∀ v v' slot, m.Gives p v slot → m.Gives p v' slot → v.sameAs v'
  /-- None of them has the slot of an earlier local of a different declaration. -/
  fresh : ∀ v slot, m.Gives p v slot → ∀ u ∈ before, u.slot = slot → u.sameAs v

namespace Draft

variable {d d' : Draft} {p : Program Code} {m : SlotMap}

/-- The variables of a block get slots. -/
theorem mergeBlock_houses (hd : d.Built) (h : d.mergeBlock p = .ok (m, d')) :
    d.Merges d' ∧ m.Houses p d.locals d'.locals := by
  rw [mergeBlock] at h
  split at h
  · cases h
  · rename_i arguments d₁ harguments
    split at h
    · cases h
    · rename_i locals d₂ hlocals
      cases h
      obtain ⟨hm₁, ha⟩ := mergeAll_merges hd harguments
      obtain ⟨hm₂, hl⟩ := mergeAll_merges (hm₁.built hd) hlocals
      have hmerges := hm₁.trans hm₂
      have hla := ha.length_eq
      have hll := hl.length_eq
      simp only [List.length_drop, Array.length_toList] at hla hll
      have hplaced : ∀ v slot, SlotMap.Gives ⟨none :: arguments.map some, locals⟩ p v slot →
          v.HasSlot d'.locals slot := by
        rintro v slot (⟨i, hv, hs⟩ | ⟨i, hv, hs⟩)
        · obtain ⟨k, rfl⟩ : ∃ k, i = k + 1 := by
            cases i with
            | zero => cases hs
            | succ k => exact ⟨k, rfl⟩
          rw [List.getElem?_cons_succ, List.getElem?_map, Option.map_eq_some_iff] at hs
          obtain ⟨s, hs, hslot⟩ := hs
          cases hslot
          obtain ⟨hk, rfl⟩ := List.getElem?_eq_some_iff.1 hs
          obtain ⟨hi, rfl⟩ := Array.getElem?_eq_some_iff.1 hv
          obtain ⟨w, hw, hsame⟩ := (List.forall₂_iff_get.1 ha).2 k (by simp; omega) hk
          refine ⟨w, hm₂.locals _ w hw, ?_⟩
          simpa [Nat.add_comm] using hsame
        · obtain ⟨hk, rfl⟩ := List.getElem?_eq_some_iff.1 hs
          obtain ⟨hi, rfl⟩ := Array.getElem?_eq_some_iff.1 hv
          obtain ⟨w, hw, hsame⟩ := (List.forall₂_iff_get.1 hl).2 i (by simpa using hi) hk
          exact ⟨w, hw, by simpa using hsame⟩
      refine ⟨hmerges, rfl, fun i hpos hi => ?_, hll.symm, hplaced,
        fun v v' slot hv hv' => (hplaced v slot hv).sameAs (hplaced v' slot hv'),
        fun v slot hv u hu hslot => ?_⟩
      · obtain ⟨k, rfl⟩ := Nat.exists_eq_add_one.2 hpos
        have hk : k < arguments.length := by omega
        exact ⟨arguments[k], by simp [hk]⟩
      · -- An earlier local is still where its slot says.
        obtain ⟨i, hi⟩ := Array.getElem?_of_mem hu
        have hu' : u.HasSlot d'.locals slot := by
          refine ⟨u, ?_, Variable.sameAs_iff.2 ⟨rfl, rfl⟩⟩
          rw [← hslot, hd.slots i u hi]
          exact hmerges.locals i u hi
        exact hu'.sameAs (hplaced v slot hv)

/-! ### Where a variable is found -/

/-- A variable is found where it was put. -/
theorem mergeLocal_slot? {v : Variable} {slot : UInt8} (h : d.mergeLocal v = .ok (slot, d')) :
    v.slot? d'.locals = some slot := by
  rw [Draft.mergeLocal] at h
  split at h
  · rename_i w hw
    cases h
    rw [Variable.slot?, hw]
    rfl
  · rename_i hnone
    split at h
    · cases h
    · cases h
      rw [Variable.slot?, Array.find?_push, hnone, Option.none_or]
      simp [Variable.sameAs]

/-- It stays there when other variables are merged. -/
theorem mergeLocal_keeps {u v : Variable} {slot slot' : UInt8}
    (h : d.mergeLocal u = .ok (slot', d')) (hv : v.slot? d.locals = some slot) :
    v.slot? d'.locals = some slot := by
  rcases mergeLocal_cases h with ⟨rfl, -⟩ | ⟨-, -, rfl⟩
  · exact hv
  · obtain ⟨w, hw, rfl⟩ := Option.map_eq_some_iff.1 hv
    rw [Variable.slot?, Array.find?_push, hw]
    rfl

/-- Among variables that are merged, one that has a slot already gets that one. -/
theorem mergeAll_slot? {v : Variable} {slot : UInt8} {vs : List Variable} {slots : List UInt8}
    (h : d.mergeAll vs = .ok (slots, d')) (hv : v.slot? d.locals = some slot) :
    ∀ i : Nat, vs[i]? = some v → slots[i]? = some slot := by
  induction vs generalizing d slots with
  | nil => simp
  | cons u rest ih =>
    rw [mergeAll] at h
    split at h
    · cases h
    · rename_i slot' d₁ hu
      split at h
      · cases h
      · rename_i slots' d₂ hrest
        cases h
        have hkept := mergeLocal_keeps hu hv
        intro i hi
        cases i with
        | zero =>
          obtain rfl : u = v := Option.some.inj hi
          exact (mergeLocal_slot? hu).symm.trans hkept
        | succ i => exact ih hrest hkept i hi

/-- An argument of a block that has a slot before the block is spliced gets that one. -/
theorem mergeBlock_argument {v : Variable} {slot : UInt8} {i : Nat}
    (h : d.mergeBlock p = .ok (m, d')) (hv : v.slot? d.locals = some slot) (hi : 0 < i)
    (harg : p.arguments[i]? = some v) : m.arguments[i]? = some (some slot) := by
  obtain ⟨k, rfl⟩ := Nat.exists_eq_add_one.2 hi
  rw [mergeBlock] at h
  split at h
  · cases h
  · rename_i arguments d₁ harguments
    split at h
    · cases h
    · cases h
      have hget : (p.arguments.toList.drop 1)[k]? = some v := by
        rw [List.getElem?_drop, Array.getElem?_toList, Nat.add_comm, harg]
      rw [List.getElem?_cons_succ, List.getElem?_map, mergeAll_slot? harguments hv k hget]
      rfl

/-! ### Splicing -/

namespace Built

variable {w w' : Walk} {operands : List UInt8} {l : Literal Code}

theorem emitLiteral (hd : d.Built) (h : d.emitLiteral op l = .ok d') : d'.Built := by
  unfold Draft.emitLiteral at h
  split at h
  · cases h
  · rename_i hadd
    cases h
    exact (hd.addLiteral hadd).emit _ _

theorem clearLocals (hd : d.Built) (slots : List UInt8) : (d.clearLocals slots).Built := by
  rw [Draft.clearLocals]
  induction slots generalizing d with
  | nil => exact hd
  | cons slot rest ih => exact ih ((hd.emit .pushNil []).emit (.pop .temporary) [slot, 0])

theorem arrive {left forward : List (Nat × Nat)} (hd : d.Built)
    (h : Walk.arrive ip d forward = .ok (left, d')) : d'.Built := by
  induction forward generalizing d with
  | nil =>
    cases h
    exact hd
  | cons a rest ih =>
    rw [Walk.arrive] at h
    split at h
    · cases h
      exact hd
    · split at h
      · cases h
      · split at h
        · cases h
        · rename_i hpatch
          exact ih (hd.patch hpatch) h

theorem carry {last : Nat} (hd : w.draft.Built) (h : w.carry p m last ip op = .ok w') :
    w'.draft.Built := by
  have hwrite : ∀ {op operands}, w.write op operands = .ok w' → w'.draft.Built := fun h => by
    cases h
    exact hd.emit _ _
  have hliteral : ∀ {next op l}, { w with next }.writeLiteral op l = .ok w' → w'.draft.Built :=
    fun h => by
      obtain ⟨d, hr, rfl⟩ := Except.exists_of_map_eq_ok h
      exact hd.emitLiteral hr
  unfold Walk.carry at h
  extract_lets first level at h
  cases op with
  | push place | pop place =>
    cases place <;> dsimp only at h <;> split at h <;>
      first | exact hwrite h | (split at h <;> first | exact hwrite h | cases h) | cases h
  | pushBlock withContext =>
    cases withContext <;> dsimp only at h <;> split at h <;>
      first | exact hliteral h | (split at h <;> first | exact hliteral h | cases h) | cases h
  | pushConstant | pushGlobal | send _ =>
    dsimp only at h
    split at h <;> first | exact hliteral h | cases h
  | returnLocal =>
    dsimp only at h
    split at h <;> cases h
    exact hd
  | returnNonLocal =>
    dsimp only at h
    split at h
    · cases h
    · split at h <;> exact hwrite h
  | jump j wide =>
    cases j with
    | back =>
      dsimp only at h
      unfold Walk.carryBack at h
      split at h
      · cases h
      · split at h
        · cases h
        · split at h
          · cases h
          · obtain ⟨d, hr, rfl⟩ := Except.exists_of_map_eq_ok h
            exact hd.emitBack hr
    | always | test _ _ | greater =>
      cases h
      exact hd.emit _ _
  | pushSelf | returnSelf | quickened _ => cases h
  | halt | dup | dupSecond | pushNil | pushZero | pushOne | drop | step _ => exact hwrite h

theorem carryAll {last : Nat} {starts : List Nat} (hd : w.draft.Built)
    (h : w.carryAll p m last starts = .ok w') : w'.draft.Built := by
  induction starts generalizing w with
  | nil =>
    cases h
    exact hd
  | cons ip rest ih =>
    rw [Walk.carryAll] at h
    split at h
    · cases h
    · rename_i w₁ hadvance
      refine ih ?_ h
      rw [Walk.advance] at hadvance
      split at hadvance
      · cases hadvance
      · rename_i harrive
        split at hadvance
        · cases hadvance
        · split at hadvance
          · cases hadvance
          · refine carry ?_ hadvance
            exact hd.arrive harrive

theorem land {size last : Nat} {forward : List (Nat × Nat)} (hd : d.Built)
    (h : Walk.land size last d forward = .ok d') : d'.Built := by
  induction forward generalizing d with
  | nil =>
    cases h
    exact hd
  | cons a rest ih =>
    rw [Walk.land] at h
    split at h
    · cases h
    · split at h
      · cases h
      · rename_i hpatch
        exact ih (hd.patch hpatch) h

/-- Splicing is made of the ways of writing. -/
theorem splice {c : Code} {next next' : Nat} (hd : d.Built)
    (h : d.splice c next = .ok (d', next')) : d'.Built := by
  rw [Draft.splice] at h
  dsimp only at h
  split at h
  · cases h
  · rename_i m d₁ hmerge
    have hd₁ := ((mergeBlock_houses hd hmerge).1.built hd).clearLocals m.locals
    split at h
    · cases h
    · rename_i w hcarry
      split at h
      · cases h
      · rename_i d₂ hfinish
        cases h
        rw [Walk.finish] at hfinish
        split at hfinish
        · cases hfinish
        · rename_i hland
          split at hfinish <;> cases hfinish
          exact (hd₁.carryAll hcarry).land hland

end Built

end Draft

end Parley
