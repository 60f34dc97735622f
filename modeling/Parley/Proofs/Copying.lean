import Parley.Proofs.Looping
import Parley.Proofs.Translating

/-!
# Loops in codes that are moved

What becomes of an instruction when a closure is rehomed or a block is spliced does to the stack
what the instruction did (`Program.Resembles`). So the loops of a closure that is rehomed are loops
still, and those of a block are found again where the block is spliced.

* `Code.Relocated.loops`: rehoming a closure keeps its loops;
* `Walk.Follows.startsFrom_eq`: the instructions behind the place where a block is spliced are those
  of the block;
* `Walk.Follows.copies`: what a loop of the block needs is copied;
* `Walk.Follows.region`: a block that is spliced is a body that leaves one value.
-/

namespace Parley

variable {p p' : Program Code} {f : Nat → Nat} {m : SlotMap} {ip low high : Nat}
  {op op' : Opcode} {removed first second first' second' : UInt8}

/-! ### What instructions become -/

namespace Program.Resembles

/-- An instruction that is the same, in a pool with literals that make no difference to it. -/
theorem same (hr : p.tape.Reads ip op first second) (hr' : p'.tape.Reads ip op first second)
    (hpool : op.hasLiteral → ∀ l, p.literals[first.toNat]? = some l →
      ∃ l', p'.literals[first.toNat]? = some l' ∧ l.Like l') :
    p.Resembles p' id ip op second op second where
  next := rfl
  effect _ h := Tape.effect_congr hr hr' hpool h
  falls := id
  jumps _ := Iff.rfl
  target j wide wide' target hop hop' ht := by
    subst hop
    cases hop'
    rw [Tape.jumpTarget?, hr.distance] at ht
    rw [id_eq, Tape.jumpTarget?, hr'.distance]
    exact ht
  plain _ := rfl
  local_ hop hsecond := ⟨hop, hsecond⟩

/-- An access to a variable that goes to another slot or level. -/
theorem of_redirects (h : m.Redirects removed op first second op' first' second')
    (hnext : f (ip + 3) = f ip + 3) : p.Resembles p' f ip op second op' second' := by
  obtain ⟨hop, hop'⟩ := h.hasContextOperand
  have hsize := Opcode.size_of_hasContextOperand hop
  refine ⟨?_, fun r hr => ?_, fun _ => ?_, fun j => ?_, fun j wide wide' target hj => ?_,
    fun hplain => ?_, fun hlocal hzero => ?_⟩
  · rw [hsize, Opcode.size_of_hasContextOperand hop']
    exact hnext
  · cases h with
    | inside | outside | temporary => cases op <;> first | exact hr | cases hop
    | pushArgument | popArgument => exact hr
  · cases op <;> first | rfl | cases hop
  · constructor
    · rintro ⟨wide, rfl⟩
      cases hop
    · rintro ⟨wide, rfl⟩
      cases hop'
  · subst hj
    cases hop
  · omega
  · subst hlocal hzero
    cases h with
    | inside => exact ⟨rfl, rfl⟩
    | outside _ hlt => exact absurd hlt (Nat.not_lt_zero _)
    | temporary => exact ⟨rfl, rfl⟩

/-- A literal that stands for another one has the same effect. -/
theorem effect_of_standsFor {t t' : Tape} {pool pool' : Array (Literal Code)} {ip' : Nat}
    {l l' : Literal Code} (hr : t.Reads ip op first second) (hr' : t'.Reads ip' op first' second')
    (hop : op.hasLiteral) (hl : pool[first.toNat]? = some l) (hl' : pool'[first'.toNat]? = some l')
    (hstands : l'.StandsFor l) {r : Nat × Nat} (h : t.effect pool ip op = .ok r) :
    t'.effect pool' ip' op = .ok r := by
  cases op with
  | send toSuper =>
    rw [Tape.effect, hr.first (by simp [Opcode.size]), hl] at h
    rw [Tape.effect, hr'.first (by simp [Opcode.size]), hl']
    cases l with
    | selector s =>
      obtain rfl : l' = .selector s := by
        rcases hstands with rfl | ⟨hsame, -⟩
        · rfl
        · cases l' with
          | selector s' => exact congrArg _ (of_decide_eq_true hsame)
          | _ => cases hsame
      exact h
    | _ => cases h
  | pushBlock _ | pushConstant | pushGlobal => exact h
  | _ => cases hop

/-- What an instruction of a block becomes where the block is spliced. -/
theorem of_carries (hr : p.tape.Reads ip op first second)
    (hr' : p'.tape.Reads (f ip) op' first' second')
    (h : p.Carries m f p'.literals ip op first second op' first' second')
    (hnext : f (ip + op.size) = f ip + op'.size)
    (hforward : ∀ j wide, op = .jump j wide → j ≠ .back → 0 < jumpDistance wide first second →
      f ip < f (ip + jumpDistance wide first second)) :
    p.Resembles p' f ip op second op' second' := by
  cases h with
  | access h =>
    obtain ⟨hop, hop'⟩ := h.hasContextOperand
    rw [Opcode.size_of_hasContextOperand hop, Opcode.size_of_hasContextOperand hop'] at hnext
    exact of_redirects h hnext
  | closure => exact ⟨hnext, fun _ => id, id, by simp, by simp, fun _ => rfl, by simp⟩
  | literal hop hne hl hl' hstands =>
    refine ⟨hnext, fun r => effect_of_standsFor hr hr' hop hl hl' hstands, id, fun _ => Iff.rfl,
      fun j wide wide' target hj => ?_, fun _ => rfl, fun hlocal => ?_⟩
    · subst hj
      cases hop
    · subst hlocal
      cases hop
  | leaveHere =>
    exact ⟨hnext, fun _ => id, by rintro ⟨⟩, by simp, by simp, by rintro ⟨⟩, by simp⟩
  | leave => exact ⟨hnext, fun _ => id, id, by simp, by simp, fun _ => rfl, by simp⟩
  | @forward j wide wide' low high low' high' hj heq =>
    refine ⟨hnext, fun r he => ?_, ?_, fun k => ?_, fun k w w' target hk hk' ht => ?_,
      by rintro ⟨⟩, by simp⟩
    · rw [Tape.effect_jump] at he ⊢
      exact he
    · cases j <;> exact id
    · constructor <;> rintro ⟨_, h⟩ <;> cases h <;> exact ⟨_, rfl⟩
    · cases hk
      cases hk'
      rw [Tape.jumpTarget?, if_neg hj, hr.distance] at ht
      rw [Option.ite_none_right_eq_some, Option.some.injEq] at ht
      obtain ⟨hpos, rfl⟩ := ht
      have hlt := hforward j wide rfl hj hpos
      rw [Tape.jumpTarget?, if_neg hj, hr'.distance, if_pos (by omega), heq]
  | @back wide wide' low high low' high' heq =>
    refine ⟨hnext, fun r he => ?_, id, fun k => ?_, fun k w w' target hk hk' ht => ?_,
      by rintro ⟨⟩, by simp⟩
    · rw [Tape.effect_jump] at he ⊢
      exact he
    · constructor <;> rintro ⟨_, h⟩ <;> cases h <;> exact ⟨_, rfl⟩
    · cases hk
      cases hk'
      rw [Tape.jumpTarget?, if_pos rfl, hr.distance] at ht
      rw [Option.ite_none_right_eq_some, Option.some.injEq] at ht
      obtain ⟨hle, rfl⟩ := ht
      rw [Tape.jumpTarget?, if_pos rfl, hr'.distance, if_pos (by omega), Option.some.injEq]
      omega
  | plain hsize hne =>
    refine ⟨hnext, fun r he => ?_, id, fun _ => Iff.rfl, fun j wide wide' target hj => ?_,
      fun _ => rfl, fun hlocal hzero => ⟨hlocal, hzero⟩⟩
    · exact Tape.effect_congr hr hr' (fun hop => by cases op <;> cases hop <;> cases hsize) he
    · subst hj
      cases hsize

end Program.Resembles

/-! ### Closures that are rehomed -/

/-- What an instruction of a closure becomes when the closure is rehomed. -/
theorem SlotMap.Rewrites.resembles (h : m.Rewrites removed op first second op' first' second')
    (hr : p.tape.Reads ip op first second) (hr' : p'.tape.Reads ip op' first' second')
    (hpool : op.hasLiteral → ∀ l, p.literals[first.toNat]? = some l →
      ∃ l', p'.literals[first.toNat]? = some l' ∧ l.Like l') :
    p.Resembles p' id ip op second op' second' := by
  cases h with
  | access h => exact .of_redirects h rfl
  | leaveInside | leaveOutside =>
    exact ⟨rfl, fun _ => id, id, by simp, by simp, fun _ => rfl, nofun⟩
  | other => exact .same hr hr' hpool

/-- A jump stays a jump, and becomes of no other instruction. -/
theorem SlotMap.Rewrites.jump {j : Jump} {wide : Bool}
    (h : m.Rewrites removed op first second (.jump j wide) first' second') :
    op = .jump j wide := by
  cases h with
  | access h => cases h.hasContextOperand.2
  | other => rfl

namespace Program.Relocated

theorem splits (h : Program.Relocated m removed p p') : p.tape.Splits := by
  intro ip hip
  obtain ⟨op, _, _, _, _, _, hr, -⟩ := h.rewrites ip hip
  exact ⟨op, hr.opcode, hr.fits⟩

/-- Literals make no difference, since those that are changed are blocks. -/
theorem like (h : Program.Relocated m removed p p') (i : Nat) (l : Literal Code)
    (hl : p.literals[i]? = some l) : ∃ l', p'.literals[i]? = some l' ∧ l.Like l' := by
  by_cases hcloses : ∃ ip ∈ p.tape.starts, p.ClosesAt ip i
  · obtain ⟨ip, hip, hcloses⟩ := hcloses
    obtain ⟨b, b', hb, hb'⟩ := h.closures ip hip i hcloses
    rw [hb] at hl
    cases hl
    exact ⟨_, hb', .blocks b b'⟩
  · have hsame := h.others i fun ip hip hc => hcloses ⟨ip, hip, hc⟩
    exact ⟨l, hsame.trans hl, .same l⟩

theorem copies (h : Program.Relocated m removed p p') (low high : Nat) :
    p.Copies p' id low high where
  mono _ _ := id
  mem _ hip _ _ := h.starts ▸ hip
  reads ip hip _ _ op first second hr := by
    obtain ⟨op₁, first₁, second₁, op', first', second', hr₁, hr', hrewrites⟩ := h.rewrites ip hip
    obtain ⟨rfl, rfl, rfl⟩ := hr₁.unique hr
    exact ⟨op', first', second', hr', hrewrites.resembles hr hr' fun _ => h.like _⟩

theorem keeps_loops (h : Program.Relocated m removed p p') (hp : p.Loops) : p'.Loops := by
  intro ip hip wide hop
  rw [h.starts] at hip
  obtain ⟨op, first, second, op', first', second', hr, hr', hrewrites⟩ := h.rewrites ip hip
  obtain rfl : op' = .jump .greater wide := Option.some.inj (hr'.opcode.symm.trans hop)
  obtain rfl := hrewrites.jump
  obtain ⟨entry, exit, slot, rfl, hcounts⟩ := hp ip hip wide hr.opcode
  obtain ⟨slot', hcounts'⟩ := hcounts.copy h.splits (h.copies _ _)
  exact ⟨entry, exit, slot', rfl, hcounts'⟩

end Program.Relocated

/-- Rehoming a closure keeps its loops. -/
theorem Code.Relocated.loops {c c' : Code} (h : c.Relocated m removed c') (hc : c.Loops) :
    c'.Loops := by
  induction h with
  | intro _ _ _ hrelocated _ ih =>
    obtain ⟨hloops, hblocks⟩ := hc
    refine ⟨hrelocated.keeps_loops hloops, fun b' hb' => ?_⟩
    rename_i c c' _ _ _ _
    obtain ⟨i, hi⟩ := Array.getElem?_of_mem hb'
    by_cases hcloses : ∃ ip ∈ c.program.tape.starts, c.program.ClosesAt ip i
    · obtain ⟨ip, hip, hcloses⟩ := hcloses
      obtain ⟨b, b'', hb, hb''⟩ := hrelocated.closures ip hip i hcloses
      obtain rfl : b'' = b' := by
        rw [hi] at hb''
        cases hb''
        rfl
      exact ih ip hip i hcloses b b'' hb hb'' (hblocks b (Array.mem_of_getElem? hb))
    · rw [hrelocated.others i fun ip hip h => hcloses ⟨ip, hip, h⟩] at hi
      exact hblocks b' (Array.mem_of_getElem? hi)

/-! ### Blocks that are spliced -/

/-- A block that is pushed where a block was spliced keeps its loops. -/
theorem Program.Carries.loops {pool : Array (Literal Code)} {withContext : Bool} {b : Code}
    (h : p.Carries m f pool ip op first second (.pushBlock withContext) first' second')
    (hb : pool[first'.toNat]? = some (.block b)) (hp : ∀ b, .block b ∈ p.literals → b.Loops) :
    b.Loops := by
  cases h with
  | access h => cases h.hasContextOperand.2
  | closure hc hrelocated hb' =>
    rw [hb', Option.some.injEq, Literal.block.injEq] at hb
    exact hb ▸ hrelocated.loops (hp _ (Array.mem_of_getElem? hc))
  | @literal _ _ _ l l' _ _ hl hl' hstands =>
    rw [hl', Option.some.injEq] at hb
    subst hb
    rcases hstands with rfl | ⟨hsame, hne⟩
    · exact hp b (Array.mem_of_getElem? hl)
    · -- Only a block counts as the same as a block.
      cases l with
      | block c => exact absurd rfl (hne c)
      | _ => cases hsame
  | plain hsize => cases hsize

theorem Tape.Splits.starts_append' {t : Tape} (ht : t.Splits) (s : Tape) :
    (t ++ s).starts = t.starts ++ (t ++ s).startsFrom t.size :=
  startsFrom_append s (Nat.zero_le _) ht

namespace Walk.Follows

variable {w : Walk} {into : Draft} {late : Nat} {env : List Outline} {o : Outline} {D : Nat → Nat}

/-- The instructions behind the place where a block is spliced are those of the block, but for the
    return at its end. -/
theorem startsFrom_eq (h : w.Follows p m into p.tape.size late) (hf : w.forward = [])
    (hp : p.tape.Splits) (hip : p.tape.Place ip) :
    w.draft.tape.startsFrom (p.carriedTo into.position ip) =
      ((p.tape.startsFrom ip).filter fun j => p.tape.opcode? j ≠ some .returnLocal).map
        (p.carriedTo into.position) := by
  have hend : w.draft.tape.startsFrom (p.carriedTo into.position p.tape.size) = [] := by
    rw [← h.position, Tape.startsFrom]
    exact dif_neg (lt_irrefl _)
  induction ip using Tape.startsFrom.induct p.tape with
  | case1 ip hlt op hop _ ih =>
    have hmem : ip ∈ p.tape.starts := hip.resolve_right hlt.ne
    obtain ⟨first, second, hr⟩ := hp.reads_at hmem hop
    rw [Tape.startsFrom_of_opcode hlt hop]
    by_cases hreturn : op = .returnLocal
    · subst hreturn
      have hsize := h.dropped ip hmem hlt hop
      have hsame : p.carriedTo into.position (ip + 1) = p.carriedTo into.position ip :=
        Program.carriedTo_next hmem hr
      have hnil : p.tape.startsFrom p.tape.size = [] := by
        rw [Tape.startsFrom, dif_neg (lt_irrefl _)]
      rw [← hsame, hsize, hend, show ip + Opcode.returnLocal.size = p.tape.size from hsize, hnil,
        List.filter_cons_of_neg (by simp [hop])]
      rfl
    · obtain ⟨op', first', second', hr', -, hnext⟩ := h.settled hf hmem hlt hr hreturn
      have hlt' : p.carriedTo into.position ip < w.draft.tape.size := by
        have hfits := hr'.fits
        have hpos := op'.size_pos
        omega
      rw [Tape.startsFrom_of_opcode hlt' hr'.opcode, ← hnext, ih (hp.next hmem hop),
        List.filter_cons_of_pos (by simp [hop, hreturn])]
      rfl
  | case2 ip hlt hop =>
    obtain ⟨op, hop', -⟩ := hp ip (hip.resolve_right hlt.ne)
    rw [hop] at hop'
    cases hop'
  | case3 ip hge =>
    obtain rfl : ip = p.tape.size :=
      hip.resolve_left fun hmem => hge (Tape.lt_of_mem_startsFrom hmem)
    rw [hend, Tape.startsFrom, dif_neg hge]
    rfl

theorem starts_eq (h : w.Follows p m into p.tape.size late) (hf : w.forward = [])
    (hp : p.tape.Splits) (hinto : into.tape.Splits) :
    w.draft.tape.starts = into.tape.starts ++
      ((p.tape.starts).filter fun j => p.tape.opcode? j ≠ some .returnLocal).map
        (p.carriedTo into.position) := by
  have hzero : p.tape.Place 0 := by
    rcases Nat.eq_zero_or_pos p.tape.size with hzero | hpos
    · exact .inr hzero.symm
    · exact .inl (Tape.mem_startsFrom_self hpos)
  obtain ⟨code, hcode⟩ := h.grows.append
  have hstarts := h.startsFrom_eq hf hp hzero
  rw [Program.carriedTo_zero, hcode] at hstarts
  rw [hcode, hinto.starts_append']
  exact congrArg _ hstarts

theorem mem_starts (h : w.Follows p m into p.tape.size late) (hf : w.forward = [])
    (hp : p.tape.Splits) (hinto : into.tape.Splits) (hip : ip ∈ p.tape.starts)
    (hne : p.tape.opcode? ip ≠ some .returnLocal) :
    p.carriedTo into.position ip ∈ w.draft.tape.starts := by
  rw [h.starts_eq hf hp hinto]
  exact List.mem_append_right _ (List.mem_map.2
    ⟨ip, List.mem_filter.2 ⟨hip, by simpa using hne⟩, rfl⟩)

/-- An instruction of the block is found again, if it is not the return at the end. -/
theorem resembles (h : w.Follows p m into p.tape.size late) (hf : w.forward = [])
    (hD : p.Labelled env true ∅ D) (hip : ip ∈ p.tape.starts)
    (hr : p.tape.Reads ip op first second) (hne : op ≠ .returnLocal) :
    ∃ op' first' second', w.draft.tape.Reads (p.carriedTo into.position ip) op' first' second' ∧
      p.Resembles w.draft.program (p.carriedTo into.position) ip op second op' second' := by
  obtain ⟨op', first', second', hr', hcarries, hnext⟩ :=
    h.settled hf hip (Tape.lt_of_mem_startsFrom hip) hr hne
  refine ⟨op', first', second', hr', .of_carries hr hr' hcarries hnext fun j wide hop hj hpos => ?_⟩
  -- A forward jump leads to an instruction, and instructions keep their order.
  subst hop
  rcases (hD.suits ip hip _ _ _ hr).jump j wide rfl with ⟨-, hopen⟩ | ⟨target, ht, hreach, -⟩
  · cases hopen
  · rw [Tape.jumpTarget?, if_neg hj, hr.distance] at ht
    rw [Option.ite_none_right_eq_some, Option.some.injEq] at ht
    exact h.increasing hD.splits hip (ht.2 ▸ hreach.mem_starts) (by omega)

theorem copies (h : w.Follows p m into p.tape.size late) (hf : w.forward = [])
    (hD : p.Labelled env true ∅ D) (hinto : into.tape.Splits)
    (hreturns : ∀ ip ∈ p.tape.starts, ip < high → p.tape.opcode? ip ≠ some .returnLocal) :
    p.Copies w.draft.program (p.carriedTo into.position) low high where
  mono _ _ := Program.carriedTo_mono
  mem ip hip _ hlt := h.mem_starts hf hD.splits hinto hip (hreturns ip hip hlt)
  reads ip hip _ hlt _ _ _ hr :=
    h.resembles hf hD hip hr fun hop => hreturns ip hip hlt (hop ▸ hr.opcode)

/-- The loops of the block are found again. -/
theorem loops_carried (h : w.Follows p m into p.tape.size late) (hf : w.forward = [])
    (hD : p.Labelled env true ∅ D) (hinto : into.tape.Splits) (hloops : p.Loops) {i : Nat}
    (hi : i ∈ w.draft.tape.starts) (hle : into.position ≤ i) {wide : Bool}
    (hop : w.draft.tape.opcode? i = some (.jump .greater wide)) :
    ∃ entry exit slot, i = entry + 1 ∧ into.position ≤ entry ∧
      w.draft.program.Counts entry exit slot := by
  rw [h.starts_eq hf hD.splits hinto, List.mem_append, List.mem_map] at hi
  obtain hi | ⟨j, hj, rfl⟩ := hi
  · exact absurd (Tape.lt_of_mem_startsFrom hi) (Nat.not_lt_of_le hle)
  · obtain ⟨hj, hne⟩ := List.mem_filter.1 hj
    obtain ⟨op, first, second, hr⟩ := hD.splits.reads hj
    have hne' : op ≠ .returnLocal := fun hop => by simp [hr.opcode, hop] at hne
    obtain ⟨op', first', second', hr', hlike⟩ := h.resembles hf hD hj hr hne'
    obtain rfl : op' = .jump .greater wide := Option.some.inj (hr'.opcode.symm.trans hop)
    obtain ⟨wide', rfl⟩ := (hlike.jumps _).2 ⟨wide, rfl⟩
    obtain ⟨entry, exit, slot, rfl, hcounts⟩ := hloops j hj wide' hr.opcode
    obtain ⟨_, _, _, hturns, -⟩ := hcounts.turns
    have hout₁ : exit + 1 ∈ p.tape.starts :=
      hD.splits.mem_of_reads hcounts.exit_mem hcounts.drops hcounts.steps
    have hout₂ : exit + 2 ∈ p.tape.starts := hD.splits.mem_of_reads hout₁ hcounts.steps hturns
    -- The return at the end is behind the loop.
    have hreturns : ∀ ip ∈ p.tape.starts, ip < exit + 5 →
        p.tape.opcode? ip ≠ some .returnLocal := by
      intro ip hip hlt hreturn
      have hend := h.dropped ip hip (Tape.lt_of_mem_startsFrom hip) hreturn
      have hfits : exit + 2 + 3 ≤ p.tape.size := hturns.fits
      have hapart := Tape.apart hout₂ hip (by omega) hturns.opcode
      have hsize : exit + 2 + 3 ≤ ip := hapart
      omega
    have hcopies : p.Copies w.draft.program (p.carriedTo into.position) entry (exit + 5) :=
      h.copies hf hD hinto hreturns
    obtain ⟨slot', hcounts'⟩ := hcounts.copy hD.splits hcopies
    obtain ⟨op', _, _, -, hlike'⟩ := hcopies.reads entry hcounts.entry_mem le_rfl
      (by have := hcounts.le; omega) _ _ _ hcounts.copies
    obtain rfl := hlike'.plain rfl
    exact ⟨_, _, slot', hlike'.next, p.le_carriedTo _ _, hcounts'⟩

/-- A block that is spliced leaves one value. -/
theorem region (h : w.Follows p m into p.tape.size late) (hf : w.forward = [])
    (hD : p.Labelled (o :: env) true ∅ D) (hinto : into.tape.Splits) :
    w.draft.program.Region into.position w.draft.position
      fun i n => ∃ ip ∈ p.tape.starts, i = p.carriedTo into.position ip ∧ n = D ip := by
  -- Only the return goes to the end.
  have hend : ∀ ip ∈ p.tape.starts, ∀ op first second, p.tape.Reads ip op first second →
      op ≠ .returnLocal → ∃ op' first' second',
        w.draft.tape.Reads (p.carriedTo into.position ip) op' first' second' ∧
        p.Resembles w.draft.program (p.carriedTo into.position) ip op second op' second' ∧
          p.carriedTo into.position ip + op'.size ≤ w.draft.position := by
    intro ip hip op first second hr hne
    obtain ⟨op', first', second', hr', hlike⟩ := h.resembles hf hD hip hr hne
    exact ⟨op', first', second', hr', hlike, hr'.fits⟩
  refine ⟨?_, ?_, ?_⟩
  · rintro _ n ⟨ip, hip, rfl, -⟩
    refine ⟨p.le_carriedTo _ _, ?_⟩
    rw [h.position]
    exact Program.carriedTo_mono (Tape.lt_of_mem_startsFrom hip).le
  · rintro n ⟨ip, hip, heq, rfl⟩
    obtain ⟨op, first, second, hr⟩ := hD.splits.reads hip
    by_cases hne : op = .returnLocal
    · rcases (hD.suits ip hip _ _ _ hr).returns hne with hnil | ⟨-, -, hone⟩
      · cases hnil
      · exact hone
    · obtain ⟨op', -, -, -, -, hle⟩ := hend ip hip op first second hr hne
      have hpos := op'.size_pos
      omega
  · rintro _ n ⟨ip, hip, rfl, rfl⟩ hlt
    obtain ⟨op, first, second, hr⟩ := hD.splits.reads hip
    have hne : op ≠ .returnLocal := by
      rintro rfl
      have hsize := h.dropped ip hip (Tape.lt_of_mem_startsFrom hip) hr.opcode
      have hnext : p.carriedTo into.position (ip + 1) = p.carriedTo into.position ip :=
        Program.carriedTo_next hip hr
      rw [h.position, ← hsize, hnext] at hlt
      exact lt_irrefl _ hlt
    obtain ⟨op', first', second', hr', hlike, hfits⟩ := hend ip hip op first second hr hne
    have hs := hD.suits ip hip _ _ _ hr
    obtain ⟨pops, pushes, heffect, hpops, hfalls⟩ := hs.effect
    have hleads : p.LeadsTo (fun i n => i ∈ p.tape.starts ∧ n = D i) ip (D ip) op := by
      refine ⟨⟨pops, pushes, heffect, hpops, fun hf => ?_⟩, fun j wide hj => ?_⟩
      · obtain ⟨hreach, hn⟩ := hfalls hf
        exact ⟨hreach.mem_starts, hn.symm⟩
      · rcases hs.jump j wide hj with ⟨-, hopen⟩ | ⟨target, ht, hreach, hn⟩
        · cases hopen
        · exact ⟨target, ht, hreach.mem_starts, hn.symm⟩
    exact ⟨h.mem_starts hf hD.splits hinto hip fun hop => hne (Option.some.inj
      (hr.opcode.symm.trans hop)), op', first', second', hr', hfits,
      hleads.copy hlike fun i n hi => ⟨i, hi.1, rfl, hi.2⟩⟩

end Walk.Follows

end Parley
