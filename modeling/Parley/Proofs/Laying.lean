import Parley.Proofs.Compiled
import Parley.Proofs.Copying

/-!
# Comparisons on a draft

The only instruction that compares two numbers and jumps is that of a loop over integers. This is
kept of what is written on a draft behind some start (`Draft.Lays`): each comparison there belongs
to a loop that is complete, or it is an open jump.

* `Draft.Lays.trans`, `Draft.Lays.points`: what is written one after another, and the target that
  an open jump gets;
* `Draft.Stands.splice_lays`: a block that is spliced brings its loops, and is itself the body of
  one.
-/

namespace Parley

variable {d d' d'' : Draft} {H H' : Set (Nat × Jump)} {p p' : Program Code} {R : Nat → Nat → Prop}
  {ip low high entry exit : Nat} {op : Opcode} {first second slot : UInt8} {operands : List UInt8}

/-! ### Programs that are written on -/

/-- A loop is inside its program. -/
theorem Program.Counts.fits (h : p.Counts entry exit slot) : exit + 5 ≤ p.tape.size := by
  obtain ⟨_, _, _, hturns, -⟩ := h.turns
  exact hturns.fits

theorem Tape.Splits.subset_starts {t : Tape} (ht : t.Splits) (s : Tape) (hip : ip ∈ t.starts) :
    ip ∈ (t ++ s).starts := by
  rw [ht.starts_append']
  exact List.mem_append_left _ hip

/-- What is written behind a program, and further literals, leave its instructions as they are. -/
theorem Program.copies_append (hp : p.tape.Splits) {code : Tape} (htape : p'.tape = p.tape ++ code)
    (hliterals : ∀ (i : Nat) l, p.literals[i]? = some l → p'.literals[i]? = some l)
    (low high : Nat) : p.Copies p' id low high where
  mono _ _ := id
  mem _ hip _ _ := htape ▸ hp.subset_starts code hip
  reads _ _ _ _ _ _ _ hr :=
    have hr' := htape ▸ hr.append code
    ⟨_, _, _, hr', .same hr hr' fun _ l hl => ⟨l, hliterals _ l hl, .same l⟩⟩

/-- A body may have an instruction in front that goes on with it. -/
theorem Program.Region.cons (low : Nat) (op : Opcode) (n : Nat) {pops pushes : Nat}
    (h : p.Region (low + op.size) exit R) (hmem : low ∈ p.tape.starts)
    (hr : p.tape.Reads low op first second) (hjump : ∀ j wide, op ≠ .jump j wide)
    (heffect : p.tape.effect p.literals low op = .ok (pops, pushes)) (hpops : pops ≤ n)
    (hnext : R (low + op.size) (n - pops + pushes)) :
    p.Region low exit fun i k => i = low ∧ k = n ∨ R i k := by
  have hpos := op.size_pos
  have hle := (h.within _ _ hnext).2
  refine ⟨?_, ?_, ?_⟩
  · rintro i k (⟨rfl, -⟩ | hR)
    · exact ⟨le_rfl, by omega⟩
    · obtain ⟨hlow, hexit⟩ := h.within i k hR
      exact ⟨by omega, hexit⟩
  · rintro k (⟨heq, -⟩ | hR)
    · omega
    · exact h.leaves k hR
  · rintro i k (⟨rfl, rfl⟩ | hR) hlt
    · exact ⟨hmem, op, first, second, hr, hle,
        ⟨⟨pops, pushes, heffect, hpops, fun _ => .inr hnext⟩, fun j wide hj =>
          absurd hj (hjump j wide)⟩⟩
    · obtain ⟨hi, op', first', second', hr', hfits, heff, hjumps⟩ := h.leads i k hR hlt
      refine ⟨hi, op', first', second', hr', hfits, ?_, fun j wide hj => ?_⟩
      · obtain ⟨pops', pushes', he, hle', hfalls⟩ := heff
        exact ⟨pops', pushes', he, hle', fun hf => .inr (hfalls hf)⟩
      · obtain ⟨target, ht, hR'⟩ := hjumps j wide hj
        exact ⟨target, ht, .inr hR'⟩

/-! ### What is laid down behind a draft -/

/-- What is written on a draft, and has come to another one. `H` are the forward jumps in it that
    are open. -/
structure Draft.Lays (d d' : Draft) (H : Set (Nat × Jump)) : Prop where
  tape : ∃ code, d'.tape = d.tape ++ code
  literals : ∀ (i : Nat) l, d.literals[i]? = some l → d'.literals[i]? = some l
  blocks : ∀ b, .block b ∈ d'.literals → .block b ∈ d.literals ∨ b.Loops
  opened : ∀ x ∈ H, d.position ≤ x.1 ∧ x.1 ∈ d'.tape.starts ∧
    ∃ wide first second, d'.tape.Reads x.1 (.jump x.2 wide) first second
  /-- A comparison is that of a loop apart from the open jumps, or one of them. -/
  loops : ∀ ip ∈ d'.tape.starts, d.position ≤ ip → (∀ j, (ip, j) ∉ H) → ∀ wide,
    d'.tape.opcode? ip = some (.jump .greater wide) → ∃ entry exit slot, ip = entry + 1 ∧
      d.position ≤ entry ∧ d'.program.Counts entry exit slot ∧
        ∀ x ∈ H, x.1 + 3 ≤ entry ∨ exit + 5 ≤ x.1

/-- A single instruction is written on a draft. -/
structure Draft.Puts (d d' : Draft) (H : Set (Nat × Jump)) (op : Opcode) (first second : UInt8) :
    Prop where
  lays : d.Lays d' H
  mem : d.position ∈ d'.tape.starts
  reads : d'.tape.Reads d.position op first second
  position : d'.position = d.position + op.size

/-- It is not a comparison, or it is open. -/
theorem Draft.puts_of_written (op : Opcode) (operands : List UInt8) (hd : d.tape.Splits)
    (hn : operands.length + 1 = op.size) (htape : d'.tape = d.tape ++ Tape.written op operands)
    (hliterals : ∀ (i : Nat) l, d.literals[i]? = some l → d'.literals[i]? = some l)
    (hblocks : ∀ b, .block b ∈ d'.literals → .block b ∈ d.literals ∨ b.Loops)
    (hH : ∀ x ∈ H, x.1 = d.position ∧ op = .jump x.2 false)
    (hop : ∀ wide, op = .jump .greater wide → (d.position, .greater) ∈ H) :
    d.Puts d' H op (operands.getD 0 0) (operands.getD 1 0) := by
  have hstarts : d'.tape.starts = d.tape.starts ++ [d.position] := htape ▸ hd.starts_append hn
  have hmem : d.position ∈ d'.tape.starts := by simp [hstarts]
  have hreads : d'.tape.Reads d.position op (operands.getD 0 0) (operands.getD 1 0) :=
    htape ▸ Tape.reads_written d.tape hn
  refine ⟨⟨⟨_, htape⟩, hliterals, hblocks, fun x hx => ?_, fun ip hip hle hnot wide hgreater => ?_⟩,
    hmem, hreads, ?_⟩
  · obtain ⟨hposition, hjump⟩ := hH x hx
    rw [hposition]
    exact ⟨le_rfl, hmem, false, _, _, hjump ▸ hreads⟩
  · rw [hstarts, List.mem_append, List.mem_singleton] at hip
    obtain hip | rfl := hip
    · exact absurd (Tape.lt_of_mem_startsFrom hip) (Nat.not_lt_of_le hle)
    · exact absurd (hop wide (Option.some.inj (hreads.opcode.symm.trans hgreater))) (hnot _)
  · rw [Draft.position, htape, Tape.size_written hn, Draft.position]

namespace Draft.Lays

/-- Nothing is written. -/
theorem of_eq (htape : d'.tape = d.tape) (hliterals : d'.literals = d.literals) : d.Lays d' ∅ where
  tape := ⟨#[], by simp [htape]⟩
  literals _ _ hl := hliterals ▸ hl
  blocks _ hb := .inl (hliterals ▸ hb)
  opened _ hx := hx.elim
  loops ip hip hle := by
    rw [htape] at hip
    exact absurd (Tape.lt_of_mem_startsFrom hip) (Nat.not_lt_of_le hle)

theorem position_le (h : d.Lays d' H) : d.position ≤ d'.position := by
  obtain ⟨code, hcode⟩ := h.tape
  rw [Draft.position, Draft.position, hcode, Array.size_append]
  exact Nat.le_add_right _ _

theorem reads (h : d.Lays d' H) (hr : d.tape.Reads ip op first second) :
    d'.tape.Reads ip op first second := by
  obtain ⟨code, hcode⟩ := h.tape
  exact hcode ▸ hr.append code

theorem mem_starts (h : d.Lays d' H) (hd : d.tape.Splits) (hip : ip ∈ d.tape.starts) :
    ip ∈ d'.tape.starts := by
  obtain ⟨code, hcode⟩ := h.tape
  exact hcode ▸ hd.subset_starts code hip

theorem copies (h : d.Lays d' H) (hd : d.tape.Splits) (low high : Nat) :
    d.program.Copies d'.program id low high := by
  obtain ⟨code, hcode⟩ := h.tape
  have htape : d'.program.tape = d.program.tape ++ code := hcode
  exact Program.copies_append hd htape h.literals low high

/-- An instruction before the end of a draft was there. -/
theorem of_lt (h : d.Lays d' H) (hd : d.tape.Splits) (hip : ip ∈ d'.tape.starts)
    (hlt : ip < d.position) : ip ∈ d.tape.starts := by
  obtain ⟨code, hcode⟩ := h.tape
  rw [hcode, hd.starts_append', List.mem_append] at hip
  exact hip.resolve_right fun hmem => absurd (Tape.le_of_mem_startsFrom hmem) (Nat.not_le_of_lt hlt)

/-- One thing is written after another. -/
theorem trans (h : d.Lays d' H) (hd' : d'.tape.Splits) (h' : d'.Lays d'' H') :
    d.Lays d'' (H ∪ H') where
  tape := by
    obtain ⟨code, hcode⟩ := h.tape
    obtain ⟨code', hcode'⟩ := h'.tape
    exact ⟨code ++ code', by rw [hcode', hcode, Array.append_assoc]⟩
  literals i l hl := h'.literals i l (h.literals i l hl)
  blocks b hb := (h'.blocks b hb).elim (h.blocks b) .inr
  opened := by
    rintro x (hx | hx)
    · obtain ⟨hle, hmem, wide, first, second, hr⟩ := h.opened x hx
      exact ⟨hle, h'.mem_starts hd' hmem, wide, first, second, h'.reads hr⟩
    · obtain ⟨hle, hrest⟩ := h'.opened x hx
      exact ⟨h.position_le.trans hle, hrest⟩
  loops ip hip hle hnot wide hop := by
    by_cases hlt : ip < d'.position
    · have hmem := h'.of_lt hd' hip hlt
      obtain ⟨op, first, second, hr⟩ := hd'.reads hmem
      obtain rfl : op = .jump .greater wide :=
        Option.some.inj ((h'.reads hr).opcode.symm.trans hop)
      obtain ⟨entry, exit, slot, rfl, hentry, hcounts, hapart⟩ :=
        h.loops ip hmem hle (fun j hj => hnot j (.inl hj)) wide hr.opcode
      have hfits : exit + 5 ≤ d'.position := hcounts.fits
      obtain ⟨slot', hcounts'⟩ := hcounts.copy hd' (h'.copies hd' _ _)
      refine ⟨entry, exit, slot', rfl, hentry, hcounts', ?_⟩
      rintro x (hx | hx)
      · exact hapart x hx
      · exact .inr (hfits.trans (h'.opened x hx).1)
    · obtain ⟨entry, exit, slot, rfl, hentry, hcounts, hapart⟩ :=
        h'.loops ip hip (Nat.le_of_not_lt hlt) (fun j hj => hnot j (.inr hj)) wide hop
      refine ⟨entry, exit, slot, rfl, h.position_le.trans hentry, hcounts, ?_⟩
      rintro x (hx | hx)
      · -- The jump ends before the end of the draft that it is in.
        obtain ⟨-, -, _, _, _, hr⟩ := h.opened x hx
        have hsize : x.1 + 3 ≤ d'.position := hr.fits
        exact .inl (hsize.trans hentry)
      · exact hapart x hx

/-- One thing after another of which nothing is left open. -/
theorem trans' (h : d.Lays d' H) (hd' : d'.tape.Splits) (h' : d'.Lays d'' ∅) : d.Lays d'' H :=
  Set.union_empty H ▸ h.trans hd' h'

end Draft.Lays

/-! ### Jumps that get their targets -/

namespace Draft

variable {x target : Nat} {j : Jump} {wide : Bool} {low' high' : UInt8}

/-- A jump in a draft has got a target. -/
structure Points (d d' : Draft) (x target : Nat) (j : Jump) : Prop where
  size : d'.tape.size = d.tape.size
  before : ∀ i < x, d'.tape[i]? = d.tape[i]?
  starts : d'.tape.starts = d.tape.starts
  others : ∀ ip ∈ d.tape.starts, ip ≠ x → ∀ op first second,
    d.tape.Reads ip op first second → d'.tape.Reads ip op first second
  reads : ∃ wide first second, d'.tape.Reads x (.jump j wide) first second ∧
    d'.tape.jumpTarget? x j wide = some target
  literals : d'.literals = d.literals

theorem points_of_patch (hd : d.tape.Splits) (hx : x ∈ d.tape.starts)
    (hr : d.tape.Reads x (.jump j wide) first second) (hlt : x < target)
    (h : d.patch x target = .ok d') : d.Points d' x target j := by
  obtain ⟨j', narrow, wide', ho, hj, hle, hlong, hshort, rfl⟩ := patch_cases h
  obtain ⟨rfl, rfl⟩ : j = j' ∧ wide = narrow := by simpa using hr.opcode.symm.trans ho
  have hdiffers := d.overwrite_differsAt x (.jump j wide') (distanceBytes (target - x))
    (.jump j wide) rfl
  have hnew := d.overwrite_reads hr.fits (.jump j wide') (distanceBytes (target - x)) rfl
  refine ⟨hdiffers.size, fun i hi => hdiffers.elsewhere i (.inl hi),
    hdiffers.starts ho hx hd hnew.opcode rfl,
    fun ip hip hne _ _ _ hr' => hdiffers.reads ho hx hip hne hr', ⟨wide', _, _, hnew, ?_⟩, rfl⟩
  rw [Tape.jumpTarget?, if_neg hj, hnew.distance, jumpDistance_distanceBytes hlong hshort,
    if_pos (by omega)]
  exact congrArg some (by omega)

/-- What is apart from the jump is as it was. -/
theorem Points.copies (h : d.Points d' x target j) (hapart : x + 3 ≤ low ∨ high ≤ x) :
    d.program.Copies d'.program id low high where
  mono _ _ := id
  mem _ hip _ _ := h.starts ▸ hip
  reads ip hip hlow hhigh op first second hr := by
    have hr' := h.others ip hip (by omega) op first second hr
    have hliterals : d'.program.literals = d.program.literals := h.literals
    exact ⟨_, _, _, hr', .same hr hr' fun _ l hl => ⟨l, by rwa [hliterals], .same l⟩⟩

/-- A loop is complete when its comparison gets its target. -/
theorem Points.counts (h : d.Points d' (entry + 1) (exit + 5) .greater) (hd : d.tape.Splits)
    (hentry : entry ∈ d.tape.starts) (hexit : exit ∈ d.tape.starts)
    (hcopies : d.tape.Reads entry .dupSecond 0 0)
    (htests : d.tape.Reads (entry + 1) (.jump .greater wide) low' high')
    (hdoubles : d.tape.Reads (entry + 4) .dup 0 0)
    (hhands : d.tape.Reads (entry + 5) (.pop .temporary) slot 0)
    (hbody : ∃ R, d.program.Region (entry + 8) exit R ∧ R (entry + 8) 0)
    (hdrops : d.tape.Reads exit .drop 0 0) (hsteps : d.tape.Reads (exit + 1) (.step true) 0 0)
    (hturns : ∃ wide first second, d.tape.Reads (exit + 2) (.jump .back wide) first second ∧
      d.tape.jumpTarget? (exit + 2) .back wide = some (entry + 1)) :
    d'.program.Counts entry exit slot := by
  obtain ⟨R, hR, hstart⟩ := hbody
  obtain ⟨wide', first, second, hback, htarget⟩ := hturns
  have hle := (hR.within _ _ hstart).2
  have hmem₁ : entry + 1 ∈ d.tape.starts := hd.mem_of_reads hentry hcopies htests
  have hmem₄ : entry + 4 ∈ d.tape.starts := hd.mem_of_reads hmem₁ htests hdoubles
  have hmem₅ : entry + 5 ∈ d.tape.starts := hd.mem_of_reads hmem₄ hdoubles hhands
  have hout₁ : exit + 1 ∈ d.tape.starts := hd.mem_of_reads hexit hdrops hsteps
  have hout₂ : exit + 2 ∈ d.tape.starts := hd.mem_of_reads hout₁ hsteps hback
  have hback' := h.others _ hout₂ (by omega) _ _ _ hback
  have hR' := hR.copy (h.copies (.inl (by omega)))
  refine ⟨h.starts ▸ hentry, h.starts ▸ hexit, h.others _ hentry (by omega) _ _ _ hcopies, h.reads,
    h.others _ hmem₄ (by omega) _ _ _ hdoubles, h.others _ hmem₅ (by omega) _ _ _ hhands,
    ⟨_, hR', _, hstart, rfl⟩, h.others _ hexit (by omega) _ _ _ hdrops,
    h.others _ hout₁ (by omega) _ _ _ hsteps, wide', first, second, hback', ?_⟩
  rw [Tape.jumpTarget?, hback.distance] at htarget
  rw [Tape.jumpTarget?, show d'.program.tape = d'.tape from rfl, hback'.distance]
  exact htarget

end Draft

namespace Draft.Lays

variable {x target : Nat} {j : Jump}

/-- An open jump gets a target. If it is a comparison, then it belongs to a loop now. -/
theorem points (h : d.Lays d' (insert (x, j) H)) (hH : ∀ y ∈ H, y.1 ≠ x) (hd' : d'.tape.Splits)
    (hp : d'.Points d'' x target j)
    (hj : j = .greater → ∃ entry exit slot, x = entry + 1 ∧ d.position ≤ entry ∧
      d''.program.Counts entry exit slot ∧ ∀ y ∈ H, y.1 + 3 ≤ entry ∨ exit + 5 ≤ y.1) :
    d.Lays d'' H := by
  obtain ⟨hle, hx, wide, first, second, hr⟩ := h.opened (x, j) (.inl rfl)
  have hexact : ∀ {ip op}, ip ∈ d'.tape.starts → ip ≠ x →
      d''.tape.opcode? ip = some op → d'.tape.opcode? ip = some op := by
    intro ip op hip hne hop
    obtain ⟨op', first', second', hr'⟩ := hd'.reads hip
    rw [hr'.opcode, ← hop, (hp.others ip hip hne _ _ _ hr').opcode]
  refine ⟨Tape.exists_append fun i hi => ?_, ?_, ?_, fun y hy =>
    ?_, fun ip hip hpos hnot wide' hop => ?_⟩
  · obtain ⟨code, hcode⟩ := h.tape
    rw [hp.before i (hi.trans_le hle), hcode, Array.getElem?_append_left hi]
  · rw [hp.literals]
    exact h.literals
  · rw [hp.literals]
    exact h.blocks
  · obtain ⟨hyle, hymem, wide', first', second', hr'⟩ := h.opened y (.inr hy)
    exact ⟨hyle, hp.starts ▸ hymem, wide', _, _, hp.others y.1 hymem (hH y hy) _ _ _ hr'⟩
  · rw [hp.starts] at hip
    by_cases hipx : ip = x
    · subst hipx
      obtain ⟨wide'', _, _, hnew, -⟩ := hp.reads
      obtain ⟨rfl, -⟩ : j = .greater ∧ wide'' = wide' := by
        simpa using hnew.opcode.symm.trans hop
      exact hj rfl
    · obtain ⟨entry, exit, slot, rfl, hentry, hcounts, hapart⟩ := h.loops ip hip hpos
        (fun k hk => hk.elim (fun heq => hipx (congrArg Prod.fst heq)) (hnot k)) wide'
        (hexact hip hipx hop)
      have hx' := hapart (x, j) (.inl rfl)
      obtain ⟨slot', hcounts'⟩ := hcounts.copy hd' (hp.copies hx')
      exact ⟨entry, exit, slot', rfl, hentry, hcounts', fun y hy => hapart y (.inr hy)⟩

end Draft.Lays

/-! ### Blocks that are spliced -/

namespace Draft

theorem mergeLocal_tape {v : Variable} (h : d.mergeLocal v = .ok (slot, d')) :
    d'.tape = d.tape := by
  rcases mergeLocal_cases h with ⟨rfl, -⟩ | ⟨-, -, rfl⟩ <;> rfl

theorem mergeAll_tape {vs : List Variable} {slots : List UInt8}
    (h : d.mergeAll vs = .ok (slots, d')) : d'.tape = d.tape := by
  induction vs generalizing d slots with
  | nil =>
    cases h
    rfl
  | cons v rest ih =>
    rw [mergeAll] at h
    split at h
    · cases h
    · rename_i hv
      split at h
      · cases h
      · rename_i hrest
        cases h
        exact (ih hrest).trans (mergeLocal_tape hv)

theorem mergeBlock_tape {m : SlotMap} (h : d.mergeBlock p = .ok (m, d')) : d'.tape = d.tape := by
  rw [mergeBlock] at h
  split at h
  · cases h
  · rename_i ha
    split at h
    · cases h
    · rename_i hl
      cases h
      exact (mergeAll_tape hl).trans (mergeAll_tape ha)

theorem splits_emit (hd : d.tape.Splits) (hn : operands.length + 1 = op.size) :
    (d.emit op operands).tape.Splits :=
  d.emit_tape op operands ▸ hd.append hn

theorem emit_puts (hd : d.tape.Splits) (hn : operands.length + 1 = op.size)
    (hop : ∀ wide, op ≠ .jump .greater wide) :
    d.Puts (d.emit op operands) ∅ op (operands.getD 0 0) (operands.getD 1 0) :=
  puts_of_written op operands hd hn (d.emit_tape op operands) (fun _ _ hl => hl)
    (fun _ hb => .inl hb)
    (fun _ hx => hx.elim) fun wide h => absurd h (hop wide)

/-- Setting locals to nil is no loop. -/
theorem clearLocals_lays (hd : d.tape.Splits) (slots : List UInt8) :
    (d.clearLocals slots).tape.Splits ∧ d.Lays (d.clearLocals slots) ∅ := by
  rw [clearLocals]
  induction slots generalizing d with
  | nil => exact ⟨hd, .of_eq rfl rfl⟩
  | cons slot rest ih =>
    let d₁ := d.emit .pushNil []
    let d₂ := d₁.emit (.pop .temporary) [slot, 0]
    have hd₁ : d₁.tape.Splits := splits_emit hd rfl
    have hd₂ : d₂.tape.Splits := splits_emit hd₁ rfl
    have hnil : d.Puts d₁ ∅ .pushNil 0 0 := emit_puts hd rfl (by simp)
    have hpop : d₁.Puts d₂ ∅ (.pop .temporary) slot 0 := emit_puts hd₁ rfl (by simp)
    obtain ⟨hsplits, hlays⟩ := ih hd₂
    exact ⟨hsplits, (hnil.lays.trans' hd₁ hpop.lays).trans' hd₂ hlays⟩

/-- A part of a program with locals set to nil in front of it is a part of the program, too. -/
theorem clearLocals_region (hd : d.tape.Splits) (slots : List UInt8)
    (hp : ∃ code, p.tape = (d.clearLocals slots).tape ++ code)
    (hR : p.Region (d.clearLocals slots).position exit R)
    (hstart : R (d.clearLocals slots).position 0) :
    ∃ R', p.Region d.position exit R' ∧ R' d.position 0 := by
  rw [clearLocals] at hp hR hstart
  induction slots generalizing d with
  | nil => exact ⟨R, hR, hstart⟩
  | cons slot rest ih =>
    let d₁ := d.emit .pushNil []
    let d₂ := d₁.emit (.pop .temporary) [slot, 0]
    have hd₁ : d₁.tape.Splits := splits_emit hd rfl
    have hd₂ : d₂.tape.Splits := splits_emit hd₁ rfl
    have hnil : d.Puts d₁ ∅ .pushNil 0 0 := emit_puts hd rfl (by simp)
    have hpop : d₁.Puts d₂ ∅ (.pop .temporary) slot 0 := emit_puts hd₁ rfl (by simp)
    obtain ⟨R', hR', hstart'⟩ := ih hd₂ hp hR hstart
    -- Both instructions are found in the program.
    have hfound : ∀ {ip op first second}, ip ∈ d₂.tape.starts → d₂.tape.Reads ip op first second →
        ip ∈ p.tape.starts ∧ p.tape.Reads ip op first second := by
      intro ip op first second hip hr
      obtain ⟨hsplits, hlays⟩ := clearLocals_lays hd₂ rest
      obtain ⟨code, hcode⟩ := hp
      rw [hcode]
      exact ⟨hsplits.subset_starts code (hlays.mem_starts hd₂ hip), (hlays.reads hr).append code⟩
    obtain ⟨hmem₁, hreads₁⟩ :=
      hfound (hpop.lays.mem_starts hd₁ hnil.mem) (hpop.lays.reads hnil.reads)
    obtain ⟨hmem₂, hreads₂⟩ := hfound hpop.mem hpop.reads
    have h₁ : d₁.position = d.position + 1 := hnil.position
    have h₂ : d₂.position = d.position + 1 + 3 := h₁ ▸ hpop.position
    rw [h₂] at hR' hstart'
    rw [h₁] at hmem₂ hreads₂
    have hR₁ := Program.Region.cons (d.position + 1) (.pop .temporary) 1 hR' hmem₂ hreads₂
      (by simp) rfl
      le_rfl hstart'
    exact ⟨_, .cons d.position .pushNil 0 hR₁ hmem₁ hreads₁ (by simp) rfl le_rfl (.inl ⟨rfl, rfl⟩),
      .inl ⟨rfl, rfl⟩⟩

theorem Stands.splits {env : List Outline} {O K : Set (Nat × Nat)} {n : Nat}
    (h : d.Stands env O K n) : d.tape.Splits := by
  obtain ⟨D, hD, -⟩ := h.labels
  exact hD.splits

/-- A block that is spliced brings its loops with it. Where it is then leaves one value. -/
theorem Stands.splice_lays {env : List Outline} {O K : Set (Nat × Nat)} {n n' next next' : Nat}
    {c : Code} (h : d.Stands env O K n) (hc : c.Lexical (d.outline :: env))
    (hn : Numbered (parts d.literals ∪ c.parts) next) (hloops : c.Loops)
    (hs : d.splice c next = .ok (d', next')) (h' : d'.Stands env O K n') :
    d.Lays d' ∅ ∧ ∃ R, d'.program.Region d.position d'.position R ∧ R d.position 0 := by
  obtain ⟨D, hD⟩ := hc.labelled
  obtain ⟨D', hD', -⟩ := h'.labels
  obtain ⟨⟨depths, bound⟩, hcheck⟩ := hc.check
  obtain ⟨m, d₁, w, hmerge, hend, rfl, hforward, -⟩ :=
    splice_follows h.literals_le (Tape.checked_of_check hcheck) hn hs
  obtain ⟨hloops, hblocks⟩ := hloops
  have htape : d₁.tape = d.tape := mergeBlock_tape hmerge
  have hliterals : d₁.literals = d.literals := mergeBlock_literals hmerge
  have hd₁ : d₁.tape.Splits := htape ▸ h.splits
  obtain ⟨hd₂, hclear⟩ := clearLocals_lays hd₁ m.locals
  have hmerged : d.Lays d₁ ∅ := .of_eq htape hliterals
  have hcleared := hmerged.trans' hd₁ hclear
  have h₂ : (d₁.clearLocals m.locals).Stands env O K n := by
    obtain ⟨h₁, -, -, -, hslots⟩ := (h.mergeBlock c.program).of_ok hmerge
    exact h₁.clearLocals _ hslots
  obtain ⟨D₂, hD₂, -⟩ := h₂.labels
  -- A block of the pool is pushed by an instruction that was there or by one of the block's.
  have hnew : ∀ b, .block b ∈ w.draft.literals →
      .block b ∈ (d₁.clearLocals m.locals).literals ∨ b.Loops := by
    intro b hb
    obtain ⟨i, hi⟩ := Array.getElem?_of_mem hb
    obtain ⟨ip, hip, withContext, index, second, hr, rfl⟩ := hD'.pushed i b hi
    rw [show w.draft.program.tape.starts = _ from hend.starts_eq hforward hD.splits hd₂,
      List.mem_append, List.mem_map] at hip
    obtain hip | ⟨j, hj, rfl⟩ := hip
    · obtain ⟨code, hcode⟩ := hend.grows.append
      obtain ⟨op, index', second', hr'⟩ := hd₂.reads hip
      have hr'' : w.draft.tape.Reads ip op index' second' := hcode ▸ hr'.append code
      obtain ⟨rfl, rfl, rfl⟩ := hr''.unique hr
      obtain ⟨l, hl, -⟩ := (hD₂.suits ip hip _ _ _ hr').literal rfl
      obtain rfl : l = .block b := Option.some.inj ((hend.grows.literals _ l hl).symm.trans hi)
      exact .inl (Array.mem_of_getElem? hl)
    · obtain ⟨hj, hne⟩ := List.mem_filter.1 hj
      obtain ⟨op, first, second, hrj⟩ := hD.splits.reads hj
      have hne' : op ≠ .returnLocal := fun hop => by simp [hrj.opcode, hop] at hne
      obtain ⟨op', first', second', hr', hcarries, -⟩ :=
        hend.settled hforward hj (Tape.lt_of_mem_startsFrom hj) hrj hne'
      obtain ⟨rfl, rfl, rfl⟩ := hr'.unique hr
      exact .inr (hcarries.loops hi hblocks)
  have hwalk : (d₁.clearLocals m.locals).Lays w.draft ∅ :=
    { tape := hend.grows.append
      literals := hend.grows.literals
      blocks := hnew
      opened := fun x hx => hx.elim
      loops := fun ip hip hle _ wide hop => by
        obtain ⟨entry, exit, slot, rfl, hentry, hcounts⟩ :=
          hend.loops_carried hforward hD hd₂ hloops hip hle hop
        exact ⟨entry, exit, slot, rfl, hentry, hcounts, fun x hx => hx.elim⟩ }
  refine ⟨hcleared.trans' hd₂ hwalk, ?_⟩
  have hR := hend.region hforward hD hd₂
  have hposition : d₁.position = d.position := by rw [position, position, htape]
  obtain ⟨R, hR', hstart⟩ := clearLocals_region hd₁ m.locals hend.grows.append hR
    ⟨0, Tape.mem_startsFrom_self hc.nonempty, (Program.carriedTo_zero ..).symm, hD.start.symm⟩
  exact ⟨R, hposition ▸ hR', hposition ▸ hstart⟩

end Draft

/-! ### Complete programs -/

/-- A program in which nothing is written yet comes to one of which every loop is complete. -/
theorem Draft.Lays.loops_of_blank (hd : d.position = 0) (hl : d.literals = #[]) (h : d.Lays d' ∅) :
    d'.program.Loops ∧ ∀ b, .block b ∈ d'.literals → b.Loops := by
  refine ⟨fun ip hip wide hop => ?_, fun b hb => ?_⟩
  · obtain ⟨entry, exit, slot, hip', -, hcounts, -⟩ :=
      h.loops ip hip (hd ▸ ip.zero_le) (fun _ hj => hj.elim) wide hop
    exact ⟨entry, exit, slot, hip', hcounts⟩
  · refine (h.blocks b hb).resolve_left fun hb => ?_
    rw [hl] at hb
    simp at hb

/-- Loops are told by the instructions and the literals. -/
theorem Program.Loops.congr (h : p.Loops) (hp : p.tape.Splits) (htape : p'.tape = p.tape)
    (hliterals : p'.literals = p.literals) : p'.Loops := by
  intro ip hip wide hop
  rw [htape] at hip hop
  obtain ⟨entry, exit, slot, rfl, hcounts⟩ := h ip hip wide hop
  obtain ⟨slot', hcounts'⟩ := hcounts.copy hp
    (Program.copies_append hp (show p'.tape = p.tape ++ #[] by simp [htape])
      (fun _ _ hl => hliterals ▸ hl) _ _)
  exact ⟨entry, exit, slot', rfl, hcounts'⟩

end Parley
