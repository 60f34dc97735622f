import Parley.Proofs.Laying

/-!
# Parameters of blocks in place

A block that was put in place has its instructions on the draft, with its variables in slots of the
frame around (`Draft.Embeds`), and this is kept of what is written behind it. A variable that had a
slot of that frame before keeps it, so the block accesses its parameter there.

A loop over integers that is written out gives the parameter of its body a slot first, and then puts
the body in place. So the slot that the index is put into is the one that the instructions of the
body access (`Draft.Hands.accesses`).
-/

namespace Parley

variable {d d' : Draft} {H : Set (Nat × Jump)} {p : Program Code} {m : SlotMap}
  {low high ip : Nat} {place : Nat → Nat} {slot i : UInt8}

/-- A block is in place on a draft, between two offsets. `m` are the slots of its variables, and
    `place` tells where its instructions are. -/
structure Draft.Embeds (d : Draft) (p : Program Code) (m : SlotMap) (low high : Nat)
    (place : Nat → Nat) : Prop where
  within : ∀ ip ∈ p.tape.starts, low ≤ place ip ∧ place ip ≤ high
  carried : ∀ ip ∈ p.tape.starts, ∀ op first second, p.tape.Reads ip op first second →
    op ≠ .returnLocal → place ip ∈ d.tape.starts ∧ ∃ op' first' second',
      d.tape.Reads (place ip) op' first' second' ∧
        p.Carries m place d.literals ip op first second op' first' second'

/-- A loop over integers has a block in place as its body, and puts the index into the slot that the
    parameter of the block has. -/
def Draft.Hands (d : Draft) (p : Program Code) : Prop :=
  ∃ entry exit slot m place, d.program.Counts entry exit slot ∧
    d.Embeds p m (entry + 8) exit place ∧ m.arguments[1]? = some (some slot)

/-! ### Accesses -/

/-- Where an argument is accessed, its slot is accessed now. -/
theorem Program.Carries.of_argument {f : Nat → Nat} {pool : Array (Literal Code)} {op' : Opcode}
    {first' second' : UInt8} {access : Place → Opcode} (haccess : access = .push ∨ access = .pop)
    (hslot : m.argument i = .ok slot)
    (h : p.Carries m f pool ip (access .argument) i 0 op' first' second') :
    op' = access .temporary ∧ first' = slot ∧ second' = 0 := by
  have hredirects : m.Redirects 0 (access .argument) i 0 op' first' second' := by
    rcases haccess with rfl | rfl
    · cases h with
      | access h => exact h
      | literal hop => cases hop
      | plain hsize => cases hsize
    · cases h with
      | access h => exact h
      | literal hop => cases hop
      | plain hsize => cases hsize
  -- The scope of the argument is the one that is spliced away.
  rcases haccess with rfl | rfl
  · cases hredirects with
    | inside _ hlt | outside _ hlt => exact absurd hlt UInt8.not_lt_zero
    | temporary hop => simp at hop
    | pushArgument _ hs => exact ⟨rfl, Except.ok.inj (hs.symm.trans hslot), rfl⟩
  · cases hredirects with
    | inside _ hlt | outside _ hlt => exact absurd hlt UInt8.not_lt_zero
    | temporary hop => simp at hop
    | popArgument _ hs => exact ⟨rfl, Except.ok.inj (hs.symm.trans hslot), rfl⟩

namespace Draft.Embeds

/-- Where a block in place reads or writes an argument, it does so in the slot of the argument. -/
theorem accesses {access : Place → Opcode} (h : d.Embeds p m low high place)
    (haccess : access = .push ∨ access = .pop)
    (hslot : m.arguments[i.toNat]? = some (some slot)) (hip : ip ∈ p.tape.starts)
    (hr : p.tape.Reads ip (access .argument) i 0) :
    d.tape.Reads (place ip) (access .temporary) slot 0 := by
  have hne : access .argument ≠ .returnLocal := by rcases haccess with rfl | rfl <;> simp
  obtain ⟨-, op', first', second', hr', hcarries⟩ := h.carried ip hip _ _ _ hr hne
  have hargument : m.argument i = .ok slot := by rw [SlotMap.argument, hslot]
  obtain ⟨rfl, rfl, rfl⟩ := hcarries.of_argument haccess hargument
  exact hr'

/-! ### What is written behind a block -/

theorem lays (h : d.Embeds p m low high place) (hd : d.tape.Splits) (h' : d.Lays d' H) :
    d'.Embeds p m low high place where
  within := h.within
  carried ip hip op first second hr hne := by
    obtain ⟨hmem, op', first', second', hr', hcarries⟩ := h.carried ip hip op first second hr hne
    exact ⟨h'.mem_starts hd hmem, op', first', second', h'.reads hr', hcarries.mono h'.literals⟩

/-- A jump in front of the block gets its target. -/
theorem points {x target : Nat} {j : Jump} (h : d.Embeds p m low high place)
    (h' : d.Points d' x target j) (hx : x < low) : d'.Embeds p m low high place where
  within := h.within
  carried ip hip op first second hr hne := by
    obtain ⟨hmem, op', first', second', hr', hcarries⟩ := h.carried ip hip op first second hr hne
    have hle := (h.within ip hip).1
    exact ⟨h'.starts ▸ hmem, op', first', second', h'.others _ hmem (by omega) _ _ _ hr',
      h'.literals ▸ hcarries⟩

end Draft.Embeds

/-- A loop that hands a block the index: where the block reads or writes its parameter, the slot is
    read or written that the loop has put the index into. -/
theorem Draft.Hands.accesses (h : d.Hands p) : ∃ entry exit slot, ∃ place : Nat → Nat,
    d.program.Counts entry exit slot ∧ ∀ ip ∈ p.tape.starts, entry + 8 ≤ place ip ∧
      place ip ≤ exit ∧ ∀ access : Place → Opcode, access = .push ∨ access = .pop →
        p.tape.Reads ip (access .argument) 1 0 →
          d.tape.Reads (place ip) (access .temporary) slot 0 := by
  obtain ⟨entry, exit, slot, m, place, hcounts, hembeds, hslot⟩ := h
  refine ⟨entry, exit, slot, place, hcounts, fun ip hip => ?_⟩
  obtain ⟨hlow, hhigh⟩ := hembeds.within ip hip
  exact ⟨hlow, hhigh, fun access haccess hr => hembeds.accesses (i := 1) haccess hslot hip hr⟩

/-- A block that is spliced is in place. -/
theorem Draft.Stands.splice_embeds {env : List Outline} {O K : Set (Nat × Nat)}
    {n next next' : Nat} {c : Code} (h : d.Stands env O K n) (hc : c.Lexical (d.outline :: env))
    (hn : Numbered (parts d.literals ∪ c.parts) next) (hs : d.splice c next = .ok (d', next')) :
    ∃ m d₁ place, d.mergeBlock c.program = .ok (m, d₁) ∧
      d'.Embeds c.program m d.position d'.position place := by
  obtain ⟨D, hD⟩ := hc.labelled
  obtain ⟨⟨depths, bound⟩, hcheck⟩ := hc.check
  obtain ⟨m, d₁, w, hmerge, hend, rfl, hforward, -⟩ :=
    splice_follows h.literals_le (Tape.checked_of_check hcheck) hn hs
  have htape : d₁.tape = d.tape := mergeBlock_tape hmerge
  obtain ⟨hd₂, hclear⟩ := clearLocals_lays (htape ▸ h.splits : d₁.tape.Splits) m.locals
  have hle : d.position ≤ (d₁.clearLocals m.locals).position :=
    (congrArg Array.size htape).ge.trans hclear.position_le
  refine ⟨m, d₁, c.program.carriedTo (d₁.clearLocals m.locals).position, hmerge,
    fun ip hip => ?_, fun ip hip op first second hr hne => ⟨?_, ?_⟩⟩
  · have hhigh : c.program.carriedTo (d₁.clearLocals m.locals).position ip ≤ w.draft.position :=
      hend.position ▸ Program.carriedTo_mono (Tape.lt_of_mem_startsFrom hip).le
    exact ⟨hle.trans (c.program.le_carriedTo _ ip), hhigh⟩
  · exact hend.mem_starts hforward hD.splits hd₂ hip fun h => hne (Option.some.inj
      (hr.opcode.symm.trans h))
  · obtain ⟨op', first', second', hr', hcarries, -⟩ :=
      hend.settled hforward hip (Tape.lt_of_mem_startsFrom hip) hr hne
    exact ⟨op', first', second', hr', hcarries⟩

end Parley
