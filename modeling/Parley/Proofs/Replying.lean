import Parley.Proofs.Specialization

/-!
# Replies to reports

What the handler of a condition comes to is settled by the activation for whose message or global
the condition was reported, and by no other one, whoever is asked and whatever is done until then.

* `Ensemble.Live.waits`: whoever waits has asked, and since then has been waiting at that place in
  the stack (`Ensemble.Waits`);
* `Machine.Settles`: a value goes onto the stack of the activation, a restart has it start again in
  the frame that it has, and other unwinds end it and go on as they are;
* `Ensemble.Live.settles`: so it is for every condition. Only a restart is left out where it is an
  escaped block that was reported.
-/

namespace Parley

variable {a s t : Activation} {w : World} {k k' : List Pending} {q : Pending} {u : Unwind}
  {st : Stock}

/-! ### Who waits -/

/-- An instruction that reads no global by name fails, since nothing is specialized there. -/
theorem readGlobal_fails (hw : w.Sound st) {code : Code} {ip : Nat}
    (hcode : .block code ∈ st.written) (hop : code.program.tape.opcode? ip = some .pushGlobal)
    (hread : code.reads? ip = none) (receiver : Value) :
    ∃ f, (readGlobal (code.id, ip) (code.program.literal? (code.program.tape.byteAt (ip + 1)))
      receiver w).1 = .fail f := by
  unfold readGlobal
  split
  · rename_i cell hsite
    have hsome : (code.reads? ip).isSome := hw.site hcode hsite
    rw [hread] at hsome
    cases hsome
  · exact ⟨_, rfl⟩
  · split
    · rename_i name hl
      rw [Code.reads?, hop] at hread
      dsimp only at hread
      rw [hl] at hread
      cases hread
    · exact ⟨_, rfl⟩

theorem Activation.Asks.restarted (h : t.Asks s) : s.restarted = t.restarted := by
  cases h <;> rfl

namespace Machine

variable {m : Machine}

theorem sendInstruction_pending {toSuper : Bool}
    (hop : a.code.program.tape.opcode? a.ip = some (.send toSuper)) (w : World)
    (k : List Pending) :
    let m := sendInstruction a toSuper (a.code.program.tape.byteAt (a.ip + 1))
      (a.ip + (Opcode.send toSuper).size) w k
    m.pending = k ∨ ∃ s, m.pending = .sender s :: k ∧ a.Asks s := by
  unfold sendInstruction
  dsimp only
  split
  · rename_i selector hl
    have hsend : a.code.sends? a.ip = some (toSuper, selector) := by
      simp [Code.sends?, hop, hl]
    split
    · exact .inl rfl
    · rename_i hlength
      refine .inr ⟨_, ?_, .message hsend (Nat.le_of_not_lt hlength)⟩
      split
      · split <;> rfl
      · rfl
  · exact .inl rfl

/-- An instruction leaves its activation waiting only if it asks for something, or fails to. -/
theorem instruction_pending (hw : w.Sound st) (hcode : .block a.code ∈ st.written) {op : Opcode}
    (hop : a.code.program.tape.opcode? a.ip = some op) (k : List Pending) :
    (instruction a op w k).pending = k ∨ ∃ s, (instruction a op w k).pending = .sender s :: k ∧
      (a.Asks s ∨ ∃ f, (instruction a op w k).job = .fail f) := by
  unfold instruction
  dsimp only
  cases op with
  | pushGlobal =>
    refine .inr ⟨_, rfl, ?_⟩
    cases hread : a.code.reads? a.ip with
    | some name => exact .inl (.global hread)
    | none => exact .inr (readGlobal_fails hw hcode hop hread _)
  | send toSuper =>
    rcases sendInstruction_pending hop w k with hk | ⟨s, hk, hasks⟩
    · exact .inl hk
    · exact .inr ⟨s, hk, .inl hasks⟩
  | dupSecond | pushConstant =>
    dsimp only
    split <;> exact .inl rfl
  | _ => exact .inl rfl

/-- Why something waits after a step that did not wait before. -/
inductive Waited (m : Machine) (s : Activation) (k : List Pending) : Pending → Prop
  | asks {t : Activation} : m.job = .execute t → m.pending = k → t.Asks s → Waited m s k (.sender s)
  /-- It waits for nothing, and is told so next. -/
  | fails {f : Fault} : m.step.job = .fail f → m.step.pending = .sender s :: k →
      Waited m s k (.sender s)
  | reports {b : BlockRef} {v receiver : Value} : m.job = .unwind (.escaped b v) →
      m.pending = .sender s :: k → m.step.job = .report receiver (.escaped b v) →
        Waited m s k (.reporter s)

theorem execute_waited (hw : w.Sound st) (ha : a.Sound st) (hq : q.activation? = some s)
    (h : q :: k <:+ (step ⟨w, .execute a, k'⟩).pending) :
    q :: k <:+ k' ∨ Waited ⟨w, .execute a, k'⟩ s k q := by
  have hstep : (step ⟨w, .execute a, k'⟩).pending = k' ∨
      ∃ b, (step ⟨w, .execute a, k'⟩).pending = .sender b :: k' ∧
        (a.Asks b ∨ ∃ f, (step ⟨w, .execute a, k'⟩).job = .fail f) := by
    cases hop : a.code.program.tape.opcode? a.ip with
    | none =>
      refine .inl ?_
      rw [Tape.opcode?] at hop
      rw [step, execute]
      split
      · rfl
      · rename_i byte hbyte
        rw [hbyte] at hop
        rw [show Opcode.ofByte? byte = none from hop]
        rfl
    | some op =>
      rw [step_execute hop]
      refine instruction_pending hw (ha.code.resolve_left fun hd => ?_) hop k'
      rw [hd] at hop
      cases hop
  rcases hstep with hk | ⟨b, hk, hasks⟩
  · exact .inl (hk ▸ h)
  · rw [hk] at h
    rcases List.suffix_cons_iff.1 h with heq | h
    · obtain ⟨rfl, rfl⟩ := List.cons.inj heq
      obtain rfl : b = s := Option.some.inj hq
      rcases hasks with hasks | ⟨f, hf⟩
      · exact .inr (.asks rfl rfl hasks)
      · exact .inr (.fails hf hk)
    · exact .inl h

/-- An unwind leaves nothing waiting but the sender of a message that reports an escaped block. -/
theorem unwindInto_pending (top : Pending) (u : Unwind) (w : World) (k : List Pending) :
    (unwindInto top u w k).pending = k ∨ ∃ s b v receiver, top = .sender s ∧ u = .escaped b v ∧
      (unwindInto top u w k).job = .report receiver (.escaped b v) ∧
        (unwindInto top u w k).pending = .reporter s :: k := by
  cases top with
  | sender s =>
    cases u with
    | escaped b v => exact .inr ⟨s, b, v, _, rfl, rfl, rfl, rfl⟩
    | _ => exact .inl rfl
  | called =>
    rw [unwindInto]
    split <;> exact .inl rfl
  | _ => exact .inl rfl

/-- A step leaves nothing else waiting that did not wait before. -/
theorem step_waited (hm : m.Sound st) (hq : q.activation? = some s)
    (h : q :: k <:+ m.step.pending) : q :: k <:+ m.pending ∨ m.Waited s k q := by
  obtain ⟨w, job, k'⟩ := m
  cases job with
  | execute a => exact execute_waited hm.world hm.job hq h
  | send selector arguments | invoke i arguments | evaluate b arguments | hang => exact .inl h
  | count next limit body result =>
    rw [step] at h
    split at h
    · rcases List.suffix_cons_iff.1 h with heq | h
      · cases heq
        cases hq
      · exact .inl h
    · exact .inl h
  | cycle left body result =>
    cases left with
    | zero => exact .inl h
    | succ left =>
      rcases List.suffix_cons_iff.1 h with heq | h
      · cases heq
        cases hq
      · exact .inl h
  | report receiver c =>
    have hk : (step ⟨w, .report receiver c, k'⟩).pending =
        (Handler.job receiver c (noteCondition c w) k').2.2 := rfl
    rw [hk] at h
    rcases Handler.job_pending receiver c (noteCondition c w) k' with hk | hk | hk
    · exact .inl (hk ▸ h)
    all_goals
      rw [hk] at h
      rcases List.suffix_cons_iff.1 h with heq | h
      · cases heq
        cases hq
      · exact .inl h
  | answer v =>
    cases k' with
    | nil => exact .inl h
    | cons top k' =>
      have hk : (resume top v w k').pending = k' := by cases top <;> rfl
      exact .inl ((hk ▸ h : q :: k <:+ k').trans (List.suffix_cons _ _))
  | unwind u =>
    cases k' with
    | nil => exact .inl h
    | cons top k' =>
      rcases unwindInto_pending top u w k' with hk | ⟨b, block, v, receiver, rfl, rfl, hjob, hk⟩
      · exact .inl ((hk ▸ h : q :: k <:+ k').trans (List.suffix_cons _ _))
      · rcases List.suffix_cons_iff.1 (hk ▸ h : q :: k <:+ .reporter b :: k') with heq | h
        · obtain ⟨rfl, rfl⟩ := List.cons.inj heq
          obtain rfl : b = s := Option.some.inj hq
          exact .inr (.reports rfl rfl hjob)
        · exact .inl (h.trans (List.suffix_cons _ _))

theorem step_fails {f : Fault} (hf : m.job = .fail f) (hk : m.pending = .sender s :: k) :
    m.step.pending = k := by
  obtain ⟨w, job, k'⟩ := m
  obtain rfl : job = .fail f := hf
  obtain rfl : k' = .sender s :: k := hk
  rfl

theorem Asked.suffix (h : m.Asked k) : k <:+ m.pending := by
  cases h with
  | told => exact List.suffix_rfl
  | answered | unwound => exact List.suffix_cons _ _

/-- No host is asked about a fault that an activation is told of next. -/
theorem Asked.not_failing (h : m.Asked k') {f : Fault} (hf : m.job = .fail f) :
    m.pending ≠ .sender s :: k := by
  cases h with
  | told | answered => cases hf
  | unwound _ _ _ hp =>
    rintro ⟨⟩
    rcases hp with hp | hp <;> cases hp

end Machine

namespace Ensemble

variable {p : World → Prop} {e e' e₁ : Ensemble}

/-- One ensemble after another, all with the same things pending at the bottom. -/
def Meanwhile (p : World → Prop) (k : List Pending) : Ensemble → Ensemble → Prop :=
  Relation.ReflTransGen fun e e' => e.Next e' ∧ p e'.machine.world ∧ k <:+ e'.machine.pending

theorem Meanwhile.later (h : Meanwhile p k e e') : Later p e e' := by
  induction h with
  | refl => exact .refl
  | tail _ hn ih => exact ih.tail ⟨hn.1, hn.2.1⟩

/-- An activation has asked for something and waits for it above `k`. It was `t` when it asked, and
    has been `s` at that place since. -/
inductive Waits (p : World → Prop) (t s : Activation) (k : List Pending) :
    Pending → Ensemble → Prop
  | asks {e e₁ e' : Ensemble} : Live p e → e.machine.job = .execute t → e.machine.pending = k →
      t.Asks s → e.Next e₁ → Meanwhile p (.sender s :: k) e₁ e' → Waits p t s k (.sender s) e'
  /-- A block had escaped, and was reported. -/
  | reports {e e₁ e' : Ensemble} {b : BlockRef} {v receiver : Value} : Waits p t s k (.sender s) e →
      e.machine.job = .unwind (.escaped b v) → e.machine.pending = .sender s :: k → e.Next e₁ →
      e₁.machine.job = .report receiver (.escaped b v) → Meanwhile p (.reporter s :: k) e₁ e' →
        Waits p t s k (.reporter s) e'

theorem Waits.next (h : Waits p t s k q e) (hn : e.Next e') (hp : p e'.machine.world)
    (hk : q :: k <:+ e'.machine.pending) : Waits p t s k q e' := by
  cases h with
  | asks h ht hpending hasks hn₁ hm => exact .asks h ht hpending hasks hn₁ (hm.tail ⟨hn, hp, hk⟩)
  | reports h hjob hpending hn₁ hreport hm =>
    exact .reports h hjob hpending hn₁ hreport (hm.tail ⟨hn, hp, hk⟩)

theorem Waits.asked (h : Waits p t s k q e) : t.Asks s := by
  induction h with
  | asks _ _ _ hasks _ _ => exact hasks
  | reports _ _ _ _ _ _ ih => exact ih

/-- Whoever waits has asked for something, unless it has failed to. -/
theorem Live.waits (h : Live p e) (hq : q.activation? = some s)
    (hk : q :: k <:+ e.machine.pending) : (∃ t, Waits p t s k q e) ∨
      ∃ f, e.machine.job = .fail f ∧ e.machine.pending = .sender s :: k := by
  induction h generalizing q with
  | start _ _ => cases List.eq_nil_of_suffix_nil hk
  | @next e e' h hn hp ih =>
    obtain ⟨st, hst⟩ := h.sound
    have hn' := hn
    -- Whoever waits after a host did something has waited before.
    have hasked : ∀ {k'}, e.machine.Asked k' → q :: k <:+ k' → ∃ t, Waits p t s k q e' := by
      intro k' ha hk'
      rcases ih hq (hk'.trans ha.suffix) with ⟨t, hw⟩ | ⟨f, hf, hpending⟩
      · exact ⟨t, hw.next hn' hp hk⟩
      · exact absurd hpending (ha.not_failing hf)
    cases hn with
    | yields => cases List.eq_nil_of_suffix_nil hk
    | proceeds hm =>
      cases hm with
      | step =>
        rcases Machine.step_waited hst hq hk with hk' | hwaited
        · rcases ih hq hk' with ⟨t, hw⟩ | ⟨f, hf, hpending⟩
          · exact .inl ⟨t, hw.next hn' hp hk⟩
          · have hk : q :: k <:+ e.machine.step.pending := hk
            rw [Machine.step_fails hf hpending] at hk
            exact absurd hk.length_le (Nat.not_succ_le_self _)
        · cases hwaited with
          | asks ht hpending hasks => exact .inl ⟨_, .asks h ht hpending hasks hn' .refl⟩
          | fails hf hpending => exact .inr ⟨_, hf, hpending⟩
          | reports hjob hpending hreport =>
            rcases ih (q := .sender s) rfl (hpending ▸ List.suffix_rfl) with ⟨t, hw⟩ | ⟨f, hf, -⟩
            · exact .inl ⟨t, .reports hw hjob hpending hn' hreport .refl⟩
            · cases hjob.symm.trans hf
      | change _ _ _ =>
        rcases ih hq hk with ⟨t, hw⟩ | hfails
        · exact .inl ⟨t, hw.next hn' hp hk⟩
        · exact .inr hfails
      | request _ _ => cases List.eq_nil_of_suffix_nil hk
      | consult ha _ hp' =>
        refine .inl (hasked ha ?_)
        rcases List.suffix_cons_iff.1 hk with heq | hk
        · obtain ⟨rfl, -⟩ := List.cons.inj heq
          rcases hp' with rfl | rfl <;> cases hq
        · exact hk
      | reply ha _ | refuse ha _ => exact .inl (hasked ha hk)

end Ensemble

/-! ### What a reply comes to -/

/-- Whether an unwind is for no sender to settle. -/
def Unwind.passesOn : Unwind → Bool
  | .nonLocal _ _ | .failed _ => true
  | .escaped _ _ | .restart => false

/-- Something pending that an unwind goes through: a loop of the library, or an activation that it
    is not for. -/
inductive Pending.Passes (h : Heap) (u : Unwind) : Pending → Prop
  | loop {q : Pending} : q.isLoop → Passes h u q
  | activation {q : Pending} {b : Activation} : q.activation? = some b →
      (u.ending (h.frame b.frame).activation).2 = .unwind u → Passes h u q

theorem Pending.Passes.congr {h h' : Heap} (hq : q.Passes h u)
    (heq : ∀ f, (h'.frame f).activation = (h.frame f).activation) : q.Passes h' u := by
  cases hq with
  | loop hl => exact .loop hl
  | @activation b hb hu => exact .activation hb ((heq b.frame).symm ▸ hu)

namespace Machine

variable {m : Machine} {passed rest : List Pending}

/-- An unwind that is not for a sender to settle ends it, and what waits for a report is ended by
    any unwind. -/
theorem step_ending (hq : q.activation? = some s) (hu : u.passesOn ∨ q = .reporter s) (w : World)
    (k : List Pending) : ∃ w', step ⟨w, .unwind u, q :: k⟩ =
      ⟨w', (u.ending (w.heap.frame s.frame).activation).2, k⟩ ∧
        w'.stage = w.stage.leave s.frame (u.ending (w.heap.frame s.frame).activation).1 := by
  refine ⟨(s.abandon u w).2, ?_, s.abandon_stage u w⟩
  have hinto : unwindInto q u w k = after k (s.abandon u w) := by
    cases q with
    | sender a =>
      obtain rfl : a = s := Option.some.inj hq
      rcases hu with hu | hu
      · cases u with
        | nonLocal _ _ | failed _ => rfl
        | _ => cases hu
      · cases hu
    | reporter a =>
      obtain rfl : a = s := Option.some.inj hq
      rfl
    | _ => cases hq
  rw [step, hinto, ← s.abandon_fst u w]
  rfl

theorem step_passes (hq : q.Passes w.heap u) (hu : u.passesOn) (k : List Pending) :
    ∃ w', step ⟨w, .unwind u, q :: k⟩ = ⟨w', .unwind u, k⟩ ∧
      ∀ f, (w'.heap.frame f).activation = (w.heap.frame f).activation := by
  cases hq with
  | loop hl =>
    refine ⟨w, ?_, fun _ => rfl⟩
    cases q with
    | counting _ _ _ _ | cycling _ _ _ => rfl
    | _ => cases hl
  | @activation b hb hgoes =>
    obtain ⟨w', hr, hstage⟩ := step_ending hb (.inl hu) w k
    rw [hgoes] at hr
    exact ⟨w', hr, fun f => ((World.like_of_leave hstage).frame f).activation⟩

/-- An unwind comes through whatever it passes as it is, step by step. -/
theorem passes_through (hu : u.passesOn) (hpassed : ∀ q ∈ passed, q.Passes w.heap u) {i : Nat}
    (hi : i ≤ passed.length) : ∃ w', step^[i] ⟨w, .unwind u, passed ++ rest⟩ =
      ⟨w', .unwind u, passed.drop i ++ rest⟩ ∧
        ∀ f, (w'.heap.frame f).activation = (w.heap.frame f).activation := by
  induction passed generalizing w i with
  | nil =>
    obtain rfl : i = 0 := Nat.le_zero.1 hi
    exact ⟨w, rfl, fun _ => rfl⟩
  | cons q passed ih =>
    cases i with
    | zero => exact ⟨w, rfl, fun _ => rfl⟩
    | succ i =>
      obtain ⟨w₁, hr₁, heq₁⟩ := step_passes (hpassed q List.mem_cons_self) hu (passed ++ rest)
      obtain ⟨w₂, hr₂, heq₂⟩ := ih
        (fun r hr => (hpassed r (List.mem_cons_of_mem _ hr)).congr heq₁) (Nat.le_of_succ_le_succ hi)
      refine ⟨w₂, ?_, fun f => (heq₂ f).trans (heq₁ f)⟩
      rw [Function.iterate_succ_apply, List.cons_append, hr₁, hr₂]
      rfl

/-- What it comes to that `s`, which was `t` when it asked, is told the outcome of a report. It
    waits in `q`, above `k`. -/
structure Settles (m : Machine) (t s : Activation) (q : Pending) (k : List Pending) : Prop where
  /-- It is in progress still. -/
  onStack : (m.world.heap.frame t.frame).marker = .onStack
  /-- A value is that of the expression. -/
  value : ∀ v, m.job = .answer v → m.step = ⟨m.world, .execute (s.push v), k⟩
  /-- It starts again in the frame that it has. -/
  restart : m.job = .unwind .restart → q = .sender s →
    m.step.job = .execute t.restarted ∧ m.step.pending = k ∧ m.step.world.heap = m.world.heap
  /-- A fault ends it and goes on. -/
  fault : ∀ f, m.job = .fail f → m.step.job = .fail f ∧ m.step.pending = k ∧
    (m.step.world.heap.frame t.frame).marker = .aborted
  /-- So does a return, unless it is for the activation. -/
  return_ : ∀ target v, m.job = .unwind (.nonLocal target v) →
    target ≠ (m.world.heap.frame t.frame).activation →
      m.step.job = .unwind (.nonLocal target v) ∧ m.step.pending = k ∧
        (m.step.world.heap.frame t.frame).marker = .unwound
  home : ∀ v, m.job = .unwind (.nonLocal (m.world.heap.frame t.frame).activation v) →
    m.step.job = .answer v ∧ m.step.pending = k ∧
      (m.step.world.heap.frame t.frame).marker = .returnedNormally
  others : ∀ f ≠ t.frame, m.step.world.heap.frame f = m.world.heap.frame f
  /-- None but this activation is executed because of it. -/
  executes : ∀ b, m.step.job = .execute b → b.code = t.code ∧ b.frame = t.frame
  /-- No restart goes on, but for one in reply to the report of an escaped block. -/
  restarts : m.step.job = .unwind .restart → q = .reporter s
  /-- What goes on stays what it is, so that nothing starts again further out. -/
  goesOn : ∀ u, u.passesOn → m.job = .unwind u → ∀ passed rest, q :: k = passed ++ rest →
    (∀ r ∈ passed, r.Passes m.world.heap u) → ∀ i ≤ passed.length,
      (step^[i] m).job = .unwind u ∧ (step^[i] m).pending = passed.drop i ++ rest
  /-- A return is the value of the activation that it is for. -/
  arrives : ∀ target v, m.job = .unwind (.nonLocal target v) → ∀ passed r b rest,
    q :: k = passed ++ r :: rest →
    (∀ r ∈ passed, r.Passes m.world.heap (.nonLocal target v)) → r.activation? = some b →
    (m.world.heap.frame b.frame).activation = target →
      (step^[passed.length + 1] m).job = .answer v ∧ (step^[passed.length + 1] m).pending = rest

/-- How the outcome of a report is settled. -/
inductive SettledBy (s : Activation) (q : Pending) (k : List Pending) (w : World) :
    Job → Machine → Prop
  | value (v : Value) : SettledBy s q k w (.answer v) ⟨w, .execute (s.push v), k⟩
  | restart {w' : World} : q = .sender s → w'.heap = w.heap →
      SettledBy s q k w (.unwind .restart) ⟨w', .execute s.restarted, k⟩
  | escaped {w' : World} (b : BlockRef) (v receiver : Value) : q = .sender s → w'.heap = w.heap →
      SettledBy s q k w (.unwind (.escaped b v))
        ⟨w', .report receiver (.escaped b v), .reporter s :: k⟩
  | ending {u : Unwind} {w' : World} : u.passesOn ∨ q = .reporter s →
      w'.stage = w.stage.leave s.frame (u.ending (w.heap.frame s.frame).activation).1 →
        SettledBy s q k w (.unwind u) ⟨w', (u.ending (w.heap.frame s.frame).activation).2, k⟩

theorem settledBy (hq : q.activation? = some s) {job : Job} (ho : job.isOutcome) (w : World)
    (k : List Pending) : SettledBy s q k w job (step ⟨w, job, q :: k⟩) := by
  have hending : ∀ u, u.passesOn ∨ q = .reporter s →
      SettledBy s q k w (.unwind u) (step ⟨w, .unwind u, q :: k⟩) := by
    intro u hu
    obtain ⟨w', hr, hstage⟩ := step_ending hq hu w k
    rw [hr]
    exact .ending hu hstage
  cases q with
  | sender a =>
    obtain rfl : a = s := Option.some.inj hq
    cases job with
    | answer v => exact .value v
    | unwind u =>
      cases u with
      | restart => exact .restart rfl (World.note_heap _ _)
      | escaped b v => exact .escaped b v _ rfl rfl
      | nonLocal _ _ | failed _ => exact hending _ (.inl rfl)
    | _ => cases ho
  | reporter a =>
    obtain rfl : a = s := Option.some.inj hq
    cases job with
    | answer v => exact .value v
    | unwind u => exact hending u (.inr rfl)
    | _ => cases ho
  | _ => cases hq

theorem SettledBy.others {job : Job} (h : SettledBy s q k w job m) {f : FrameRef}
    (hf : f ≠ s.frame) : m.world.heap.frame f = w.heap.frame f := by
  cases h with
  | value v => rfl
  | restart _ hheap | escaped _ _ _ _ hheap => exact congrArg (Heap.frame · f) hheap
  | ending _ hstage =>
    exact (congrArg (fun st : Stage => st.heap.frame f) hstage).trans
      (w.heap.frame_leave_of_ne hf.symm _)

/-- The activation is marked by what ends it. -/
theorem SettledBy.marker (h : SettledBy s q k w (.unwind u) m) (hu : u.passesOn)
    (hlt : s.frame < w.heap.frames.size) (hm : (w.heap.frame s.frame).marker = .onStack) :
    m.job = (u.ending (w.heap.frame s.frame).activation).2 ∧ m.pending = k ∧
      (m.world.heap.frame s.frame).marker = (u.ending (w.heap.frame s.frame).activation).1 := by
  cases h with
  | restart | escaped => cases hu
  | ending _ hstage =>
    exact ⟨rfl, rfl, (congrArg (fun st : Stage => (st.heap.frame s.frame).marker) hstage).trans
      (w.heap.marker_leave_self hlt hm _)⟩

theorem SettledBy.executes {job : Job} (h : SettledBy s q k w job m) {b : Activation}
    (hb : m.job = .execute b) : b.code = s.code ∧ b.frame = s.frame := by
  cases h with
  | value v | restart _ _ =>
    cases hb
    exact ⟨rfl, rfl⟩
  | escaped => cases hb
  | @ending u _ _ _ =>
    rcases u.ending_job (w.heap.frame s.frame).activation with ⟨v, hv⟩ | hu
    · cases hv.symm.trans hb
    · cases hu.symm.trans hb

theorem SettledBy.restarts {job : Job} (h : SettledBy s q k w job m)
    (hm : m.job = .unwind .restart) : q = .reporter s := by
  cases h with
  | value v | restart | escaped => cases hm
  | @ending u _ hu _ =>
    refine hu.resolve_left fun hu => ?_
    rcases u.ending_job (w.heap.frame s.frame).activation with ⟨v, hv⟩ | heq
    · cases hv.symm.trans hm
    · obtain rfl := Job.unwind.inj (heq.symm.trans hm)
      cases hu

theorem settles_of_asks (hasks : t.Asks s) (hq : q.activation? = some s) (hk : m.pending = q :: k)
    (ho : m.job.isOutcome) (hlt : t.frame < m.world.heap.frames.size)
    (hm : (m.world.heap.frame t.frame).marker = .onStack) : m.Settles t s q k := by
  have hframe := hasks.frame
  have hby : SettledBy s q k m.world m.job m.step := by
    obtain ⟨w, job, k'⟩ := m
    obtain rfl : k' = q :: k := hk
    exact settledBy hq ho w k
  -- So many steps later an unwind has come through what it passes.
  have hthrough : ∀ {u}, u.passesOn → m.job = .unwind u → ∀ {passed rest}, q :: k = passed ++ rest →
      (∀ r ∈ passed, r.Passes m.world.heap u) → ∀ {i}, i ≤ passed.length →
        ∃ w', step^[i] m = ⟨w', .unwind u, passed.drop i ++ rest⟩ ∧
          ∀ f, (w'.heap.frame f).activation = (m.world.heap.frame f).activation := by
    intro u hu hjob passed rest hpassed hpasses i hi
    obtain ⟨w, job, k'⟩ := m
    obtain rfl : job = .unwind u := hjob
    obtain rfl : k' = passed ++ rest := hk.trans hpassed
    exact passes_through hu hpasses hi
  refine ⟨hm, fun v hjob => ?_, fun hjob hsender => ?_, fun f hjob => ?_,
    fun target v hjob hne => ?_, fun v hjob => ?_, fun f hf => ?_, fun b hb => ?_, hby.restarts,
    fun u hu hjob passed rest hk hpasses i hi => ?_,
    fun target v hjob passed r b rest hk hpasses hr htarget => ?_⟩
  · rw [hjob] at hby
    generalize m.step = m' at hby ⊢
    cases hby
    rfl
  · rw [hjob] at hby
    generalize m.step = m' at hby ⊢
    cases hby with
    | restart _ hheap => exact ⟨congrArg Job.execute hasks.restarted, rfl, hheap⟩
    | ending hu _ =>
      rcases hu with hu | hu
      · cases hu
      · cases hsender.symm.trans hu
  · rw [hjob] at hby
    rw [← hframe] at hlt hm ⊢
    exact hby.marker rfl hlt hm
  · rw [hjob] at hby
    rw [← hframe] at hlt hm hne ⊢
    have hmarker := hby.marker rfl hlt hm
    rwa [Unwind.ending, if_neg hne] at hmarker
  · rw [hjob] at hby
    rw [← hframe] at hlt hm hby ⊢
    have hmarker := hby.marker rfl hlt hm
    rwa [Unwind.ending, if_pos rfl] at hmarker
  · exact hby.others (hframe.symm ▸ hf)
  · rw [← hasks.code, ← hframe]
    exact hby.executes hb
  · obtain ⟨w', hr, -⟩ := hthrough hu hjob hk hpasses hi
    rw [hr]
    exact ⟨rfl, rfl⟩
  · obtain ⟨w', hm', heq⟩ := hthrough rfl hjob hk hpasses le_rfl
    have hu : (Unwind.nonLocal target v).passesOn := rfl
    obtain ⟨w'', hm'', -⟩ := step_ending hr (.inl hu) w' rest
    rw [heq, htarget, Unwind.ending, if_pos rfl] at hm''
    rw [Function.iterate_succ_apply', hm', List.drop_length, List.nil_append, hm'']
    exact ⟨rfl, rfl⟩

end Machine

namespace Ensemble

variable {p : World → Prop} {e : Ensemble}

/-- Whatever is reported for an activation, and whatever comes of it later, the activation settles
    it, which has asked for what was reported. -/
theorem Live.settles (h : Live p e) {receiver : Value} {c : Condition}
    (hjob : e.machine.job = .report receiver c) (hk : e.machine.pending = q :: k)
    (hq : q.activation? = some s) : ∃ t, Waits p t s k q e ∧
      ∀ e', Meanwhile p (q :: k) e e' → e'.machine.pending = q :: k → e'.machine.job.isOutcome →
        e'.machine.Settles t s q k := by
  have hsuffix : q :: k <:+ e.machine.pending := by rw [hk]
  rcases h.waits hq hsuffix with ⟨t, hw⟩ | ⟨f, hf, -⟩
  · refine ⟨t, hw, fun e' hm hk' ho => ?_⟩
    have hmem : t.frame ∈ e'.machine.frames := by
      refine List.mem_append_right _ ?_
      rw [hk', Pending.frames_cons_of_some hq, hw.asked.frame]
      exact List.mem_cons_self
    obtain ⟨hlt, hmarker⟩ := ((h.later hm.later).kept.carries.onStack t.frame).1 hmem
    exact Machine.settles_of_asks hw.asked hq hk' ho hlt hmarker
  · cases hjob.symm.trans hf

/-- The method that has asked nil whether it is nil, as it waits. -/
def asker : Activation where
  code := .mk 0 "call" none false
    { (default : Program Code) with
      tape := #[Opcode.pushNil.byte, (Opcode.send false).byte, 0]
      literals := #[.selector "isNil"]
      arguments := #[default] }
  frame := 0
  ip := 3
  stack := []
  backEdges := 0

/-- Nil does not understand, and a host that is asked may have the method start again. -/
theorem settles_asked : Live (Allows 6) asked ∧
    asked.machine.job = .report .nil (.notUnderstood "isNil" []) ∧
    asked.machine.pending = [.sender asker] ∧
    asked.Next (asked.advance ⟨asked.machine.world, .unwind .restart, [.sender asker]⟩) ∧
    ∃ t, Waits (Allows 6) t asker [] (.sender asker) asked ∧
      ∀ e', Meanwhile (Allows 6) [.sender asker] asked e' → e'.machine.pending = [.sender asker] →
        e'.machine.job.isOutcome → e'.machine.Settles t asker (.sender asker) [] := by
  have hjob : asked.machine.job = .report .nil (.notUnderstood "isNil" []) := by cbv
  have hk : asked.machine.pending = [.sender asker] := rfl
  have hasked : asked.machine.Asked [.sender asker] := by
    show Machine.Asked ⟨asked.machine.world, asked.machine.job, asked.machine.pending⟩ _
    rw [hjob, hk]
    exact .told _ _ _ _
  exact ⟨asked_live, hjob, hk, .proceeds (.refuse hasked trivial),
    asked_live.settles hjob hk rfl⟩

end Ensemble

end Parley
