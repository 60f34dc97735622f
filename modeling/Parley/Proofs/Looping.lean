import Parley.Proofs.Writing

/-!
# Loops over integers on tapes

A loop over integers that is written out in a program has a fixed shape around its body: the start
is copied above the limit as the index, the index is compared with the limit, a copy of it is handed
to the body, and behind the body it is stepped (`Program.Counts`). The body is a part of the program
that takes nothing off the stack that was there before, and leaves one value (`Program.Region`):
each of its places is known with the number of values that it has put there.

Both are told by what the instructions at single offsets are. So they are found again wherever these
instructions are copied to (`Program.Copies`), perhaps with other slots, other literals and jumps of
another width:

* `Program.Region.copy`, `Program.Counts.copy`: a copy of a body is a body, and a copy of a loop is
  a loop.
-/

namespace Parley

variable {p p' : Program Code} {f : Nat → Nat} {R : Nat → Nat → Prop}
  {low high entry exit ip n : Nat} {op op' : Opcode} {first second first' second' slot : UInt8}

/-! ### The shape of a loop -/

/-- An instruction that takes off the stack only what `n` values there are for it, and leads to
    places in `R`. -/
structure Program.LeadsTo (p : Program Code) (R : Nat → Nat → Prop) (ip n : Nat) (op : Opcode) :
    Prop where
  effect : ∃ pops pushes, p.tape.effect p.literals ip op = .ok (pops, pushes) ∧ pops ≤ n ∧
    (Tape.fallsThrough op → R (ip + op.size) (n - pops + pushes))
  jump : ∀ j wide, op = .jump j wide →
    ∃ target, p.tape.jumpTarget? ip j wide = some target ∧ R target (j.landing n)

/-- A part of a program that leaves one value at its end. `R` are its places, each with the number
    of values that the part has put on the stack there. -/
structure Program.Region (p : Program Code) (low exit : Nat) (R : Nat → Nat → Prop) : Prop where
  within : ∀ ip n, R ip n → low ≤ ip ∧ ip ≤ exit
  leaves : ∀ n, R exit n → n = 1
  leads : ∀ ip n, R ip n → ip < exit → ip ∈ p.tape.starts ∧ ∃ op first second,
    p.tape.Reads ip op first second ∧ ip + op.size ≤ exit ∧ p.LeadsTo R ip n op

/-- A loop over integers, with its start and its limit on the stack at `entry`. At `exit` the body
    has left its value; the index is handed to it in a local. -/
structure Program.Counts (p : Program Code) (entry exit : Nat) (slot : UInt8) : Prop where
  entry_mem : entry ∈ p.tape.starts
  exit_mem : exit ∈ p.tape.starts
  copies : p.tape.Reads entry .dupSecond 0 0
  tests : ∃ wide first second, p.tape.Reads (entry + 1) (.jump .greater wide) first second ∧
    p.tape.jumpTarget? (entry + 1) .greater wide = some (exit + 5)
  doubles : p.tape.Reads (entry + 4) .dup 0 0
  hands : p.tape.Reads (entry + 5) (.pop .temporary) slot 0
  body : ∃ R, p.Region (entry + 8) exit R ∧ R (entry + 8) 0
  drops : p.tape.Reads exit .drop 0 0
  steps : p.tape.Reads (exit + 1) (.step true) 0 0
  turns : ∃ wide first second, p.tape.Reads (exit + 2) (.jump .back wide) first second ∧
    p.tape.jumpTarget? (exit + 2) .back wide = some (entry + 1)

/-- The body comes behind the entry. -/
theorem Program.Counts.le (h : p.Counts entry exit slot) : entry + 8 ≤ exit := by
  obtain ⟨R, hR, hstart⟩ := h.body
  exact (hR.within _ _ hstart).2

/-- A program in which every comparison is that of a loop over integers. -/
def Program.Loops (p : Program Code) : Prop :=
  ∀ ip ∈ p.tape.starts, ∀ wide, p.tape.opcode? ip = some (.jump .greater wide) →
    ∃ entry exit slot, ip = entry + 1 ∧ p.Counts entry exit slot

/-- A code in which every comparison is that of a loop over integers, and in the blocks in it. -/
inductive Code.Loops : Code → Prop
  | intro {c : Code} : c.program.Loops → (∀ b, .block b ∈ c.program.literals → Loops b) → Loops c

/-! ### Copies -/

/-- An instruction that does to the stack what another one does, and leads to the corresponding
    places. `f` says where the offsets correspond to. -/
structure Program.Resembles (p p' : Program Code) (f : Nat → Nat) (ip : Nat) (op : Opcode)
    (second : UInt8) (op' : Opcode) (second' : UInt8) : Prop where
  next : f (ip + op.size) = f ip + op'.size
  effect : ∀ r, p.tape.effect p.literals ip op = .ok r →
    p'.tape.effect p'.literals (f ip) op' = .ok r
  falls : Tape.fallsThrough op' → Tape.fallsThrough op
  jumps : ∀ j, (∃ wide, op = .jump j wide) ↔ ∃ wide, op' = .jump j wide
  target : ∀ j wide wide' target, op = .jump j wide → op' = .jump j wide' →
    p.tape.jumpTarget? ip j wide = some target →
      p'.tape.jumpTarget? (f ip) j wide' = some (f target)
  plain : op.size = 1 → op' = op
  local_ : op = .pop .temporary → second = 0 → op' = .pop .temporary ∧ second' = 0

/-- The instructions of a program from `low` up to `high` are found again in another one. -/
structure Program.Copies (p p' : Program Code) (f : Nat → Nat) (low high : Nat) : Prop where
  mono : ∀ i j, i ≤ j → f i ≤ f j
  mem : ∀ ip ∈ p.tape.starts, low ≤ ip → ip < high → f ip ∈ p'.tape.starts
  reads : ∀ ip ∈ p.tape.starts, low ≤ ip → ip < high → ∀ op first second,
    p.tape.Reads ip op first second → ∃ op' first' second',
      p'.tape.Reads (f ip) op' first' second' ∧ p.Resembles p' f ip op second op' second'

theorem Tape.Splits.mem_of_reads {t : Tape} (ht : t.Splits) (hip : ip ∈ t.starts)
    (hr : t.Reads ip op first second) (hr' : t.Reads (ip + op.size) op' first' second') :
    ip + op.size ∈ t.starts := by
  refine (ht.next hip hr.opcode).resolve_right fun hend => ?_
  have hfits := hr'.fits
  have hpos := op'.size_pos
  omega

namespace Program

theorem LeadsTo.copy {R' : Nat → Nat → Prop} (h : p.LeadsTo R ip n op)
    (hr : p.Resembles p' f ip op second op' second') (hR : ∀ ip n, R ip n → R' (f ip) n) :
    p'.LeadsTo R' (f ip) n op' := by
  obtain ⟨pops, pushes, heffect, hle, hfalls⟩ := h.effect
  refine ⟨⟨pops, pushes, hr.effect _ heffect, hle, fun hf => ?_⟩, fun j wide' hop' => ?_⟩
  · rw [← hr.next]
    exact hR _ _ (hfalls (hr.falls hf))
  · obtain ⟨wide, hop⟩ := (hr.jumps j).2 ⟨wide', hop'⟩
    obtain ⟨target, htarget, hlands⟩ := h.jump j wide hop
    exact ⟨f target, hr.target j wide wide' target hop hop' htarget, hR _ _ hlands⟩

theorem Copies.sub {low' high' : Nat} (h : p.Copies p' f low high) (hlow : low ≤ low')
    (hhigh : high' ≤ high) : p.Copies p' f low' high' :=
  ⟨h.mono, fun ip hip hle hlt => h.mem ip hip (hlow.trans hle) (hlt.trans_le hhigh),
    fun ip hip hle hlt => h.reads ip hip (hlow.trans hle) (hlt.trans_le hhigh)⟩

/-- A copy of a body is a body. -/
theorem Region.copy (h : p.Region low exit R) (hc : p.Copies p' f low exit) :
    p'.Region (f low) (f exit) fun i n => ∃ ip, R ip n ∧ i = f ip := by
  -- The places before the end are copied to places before the end.
  have hlt : ∀ ip n, R ip n → ip < exit → f ip < f exit := by
    intro ip n hR hlt
    obtain ⟨hip, op, first, second, hr, hfits, -⟩ := h.leads ip n hR hlt
    obtain ⟨op', first', second', -, hlike⟩ :=
      hc.reads ip hip (h.within ip n hR).1 hlt op first second hr
    have hle := hc.mono _ _ hfits
    have hpos := op'.size_pos
    rw [hlike.next] at hle
    omega
  refine ⟨?_, ?_, ?_⟩
  · rintro _ n ⟨ip, hR, rfl⟩
    obtain ⟨hlow, hexit⟩ := h.within ip n hR
    exact ⟨hc.mono _ _ hlow, hc.mono _ _ hexit⟩
  · rintro n ⟨ip, hR, heq⟩
    rcases (h.within ip n hR).2.lt_or_eq with hip | rfl
    · exact absurd heq (hlt ip n hR hip).ne'
    · exact h.leaves n hR
  · rintro _ n ⟨ip, hR, rfl⟩ hbefore
    have hip : ip < exit := by
      rcases (h.within ip n hR).2.lt_or_eq with hip | rfl
      · exact hip
      · exact absurd hbefore (lt_irrefl _)
    obtain ⟨hmem, op, first, second, hr, hfits, hleads⟩ := h.leads ip n hR hip
    have hlow := (h.within ip n hR).1
    obtain ⟨op', first', second', hr', hlike⟩ := hc.reads ip hmem hlow hip op first second hr
    exact ⟨hc.mem ip hmem hlow hip, op', first', second', hr', hlike.next ▸ hc.mono _ _ hfits,
      hleads.copy hlike fun i n hi => ⟨i, hi, rfl⟩⟩

/-- A copy of a loop is a loop. -/
theorem Counts.copy (h : p.Counts entry exit slot) (hp : p.tape.Splits)
    (hc : p.Copies p' f entry (exit + 5)) : ∃ slot', p'.Counts (f entry) (f exit) slot' := by
  have hle := h.le
  obtain ⟨wide, low, high, htests, htarget⟩ := h.tests
  obtain ⟨wide', low', high', hturns, hback⟩ := h.turns
  have hmem₁ : entry + 1 ∈ p.tape.starts := hp.mem_of_reads h.entry_mem h.copies htests
  have hmem₄ : entry + 4 ∈ p.tape.starts := hp.mem_of_reads hmem₁ htests h.doubles
  have hmem₅ : entry + 5 ∈ p.tape.starts := hp.mem_of_reads hmem₄ h.doubles h.hands
  have hout₁ : exit + 1 ∈ p.tape.starts := hp.mem_of_reads h.exit_mem h.drops h.steps
  have hout₂ : exit + 2 ∈ p.tape.starts := hp.mem_of_reads hout₁ h.steps hturns
  -- Instructions without operands are copied as they are.
  have hplain : ∀ {ip op}, ip ∈ p.tape.starts → entry ≤ ip → ip < exit + 5 → op.size = 1 →
      p.tape.Reads ip op 0 0 → p'.tape.Reads (f ip) op 0 0 ∧ f (ip + 1) = f ip + 1 := by
    intro ip op hip hlow hhigh hsize hr
    obtain ⟨op', first', second', hr', hlike⟩ := hc.reads ip hip hlow hhigh op 0 0 hr
    obtain rfl := hlike.plain hsize
    obtain rfl := hr'.noFirst (by omega)
    obtain rfl := hr'.noSecond (by omega)
    exact ⟨hr', hsize ▸ hlike.next⟩
  have hjump : ∀ {ip j wide first second target}, ip ∈ p.tape.starts → entry ≤ ip → ip < exit + 5 →
      p.tape.Reads ip (.jump j wide) first second → p.tape.jumpTarget? ip j wide = some target →
      f (ip + 3) = f ip + 3 ∧ ∃ wide first second, p'.tape.Reads (f ip) (.jump j wide) first
        second ∧
        p'.tape.jumpTarget? (f ip) j wide = some (f target) := by
    intro ip j wide first second target hip hlow hhigh hr ht
    obtain ⟨op', first', second', hr', hlike⟩ := hc.reads ip hip hlow hhigh _ _ _ hr
    obtain ⟨wide', rfl⟩ := (hlike.jumps j).1 ⟨wide, rfl⟩
    exact ⟨hlike.next, wide', first', second', hr', hlike.target j wide wide' target rfl rfl ht⟩
  obtain ⟨hcopies, h₁⟩ := hplain h.entry_mem le_rfl (by omega) rfl h.copies
  obtain ⟨h₄, htests'⟩ := hjump hmem₁ (by omega) (by omega) htests htarget
  obtain ⟨hdoubles, h₅⟩ := hplain hmem₄ (by omega) (by omega) rfl h.doubles
  obtain ⟨hdrops, hout₁'⟩ := hplain h.exit_mem (by omega) (by omega) rfl h.drops
  obtain ⟨hsteps, hout₂'⟩ := hplain hout₁ (by omega) (by omega) rfl h.steps
  obtain ⟨hout₅', hturns'⟩ := hjump hout₂ (by omega) (by omega) hturns hback
  obtain ⟨op', slot', second', hhands, hlike⟩ :=
    hc.reads _ hmem₅ (by omega) (by omega) _ _ _ h.hands
  obtain ⟨rfl, rfl⟩ := hlike.local_ rfl rfl
  have h₈ : f (entry + 8) = f (entry + 5) + 3 := hlike.next
  obtain ⟨R, hR, hstart⟩ := h.body
  have hbody := hR.copy (hc.sub (by omega) (by omega))
  have hexit : f (exit + 5) = f exit + 5 := by
    rw [show exit + 5 = exit + 2 + 3 from rfl, hout₅', hout₂', hout₁']
  rw [show entry + 4 = entry + 1 + 3 from rfl, h₄, h₁] at hdoubles
  rw [show entry + 5 = entry + 1 + 3 + 1 from rfl, h₅, h₄, h₁] at hhands h₈
  rw [h₁, hexit] at htests'
  rw [h₈] at hbody
  rw [hout₁'] at hsteps
  rw [show exit + 2 = exit + 1 + 1 from rfl, hout₂', hout₁', h₁] at hturns'
  exact ⟨slot', hc.mem _ h.entry_mem le_rfl (by omega), hc.mem _ h.exit_mem (by omega) (by omega),
    hcopies, htests', hdoubles, hhands, ⟨_, hbody, _, hstart, h₈.symm⟩, hdrops, hsteps, hturns'⟩

end Program

end Parley
