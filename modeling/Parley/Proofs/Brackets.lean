import Mathlib
import Parley.Proofs.Ensembles

/-!
# Activations are bracketed

An activation is counted and its frame marked as on the stack when it starts, and neither is
forgotten however it ends. Of a ledger and the frames of the activations in progress this is
`Ledger.Carries`; whatever becomes of a machine, it starts an activation, or ends the innermost one,
or leaves both as they are (`Ledger.Turns`).

So every ensemble is bracketed (`Ensemble.Bracketed`), under any host and with any programs.
-/

namespace Parley

variable {s : Stock} {w w' : World} {m m' : Machine} {f g : FrameRef} {fs fs' : List FrameRef}
  {l l' : Ledger} {k : List Pending}

/-! ### Ledgers and frames in progress -/

namespace Ledger

/-- The frames given are those of the activations in progress, of which there are not too many. -/
structure Carries (l : Ledger) (fs : List FrameRef) : Prop where
  distinct : fs.Nodup
  onStack : ∀ f, f ∈ fs ↔ f < l.frames ∧ (l.mark f).2 = .onStack
  depth : l.depth = fs.length
  bounded : l.depth ≤ l.settings.maxDepth

theorem enter_mark_of_lt (l : Ledger) (hf : f < l.frames) : l.enter.mark f = l.mark f :=
  Function.update_of_ne hf.ne _ l.mark

theorem enter_mark_self (l : Ledger) :
    l.enter.mark l.frames = (l.activations + 1, .onStack) :=
  Function.update_self l.frames _ l.mark

theorem leave_mark (l : Ledger) (f : FrameRef) (exit : Marker) (g : FrameRef) :
    (l.leave f exit).mark g = if f = g ∧ g < l.frames then
      ((l.mark g).1, if (l.mark g).2 = .onStack then exit else (l.mark g).2) else l.mark g :=
  rfl

/-- What becomes of a ledger and the frames of the activations in progress. -/
inductive Turns (l : Ledger) : List FrameRef → Ledger → List FrameRef → Prop
  | stays (fs : List FrameRef) (sites : Std.HashMap Location Site) (held : List Held) :
      Turns l fs { l with sites, held } fs
  | starts (fs : List FrameRef) : l.depth < l.settings.maxDepth →
      Turns l fs l.enter (l.frames :: fs)
  | ends (f : FrameRef) (fs : List FrameRef) {exit : Marker} : exit ≠ .onStack →
      Turns l (f :: fs) (l.leave f exit) fs

namespace Turns

theorem of_eq (fs : List FrameRef) (h : l' = l) : l.Turns fs l' fs :=
  h ▸ .stays fs l'.sites l'.held

theorem frames_le (h : l.Turns fs l' fs') : l.frames ≤ l'.frames := by
  cases h with
  | stays | ends => exact le_rfl
  | starts => exact Nat.le_succ _

theorem activations_le (h : l.Turns fs l' fs') : l.activations ≤ l'.activations := by
  cases h with
  | stays | ends => exact le_rfl
  | starts => exact Nat.le_succ _

/-- An activation keeps its number. -/
theorem number (h : l.Turns fs l' fs') (hf : f < l.frames) : (l'.mark f).1 = (l.mark f).1 := by
  cases h with
  | stays => rfl
  | starts => rw [l.enter_mark_of_lt hf]
  | ends g _ _ =>
    rw [leave_mark]
    split <;> rfl

/-- How an activation ended stays. -/
theorem final (h : l.Turns fs l' fs') (hf : f < l.frames) (hm : (l.mark f).2 ≠ .onStack) :
    l'.mark f = l.mark f := by
  cases h with
  | stays => rfl
  | starts => exact l.enter_mark_of_lt hf
  | ends g _ _ => rw [leave_mark, if_neg hm, ite_self]

/-- A frame that was not there is that of an activation with a number of its own. -/
theorem new (h : l.Turns fs l' fs') (hf : f < l'.frames) (hnew : ¬f < l.frames) :
    f = l.frames ∧ (l'.mark f).1 = l.activations + 1 ∧ l'.activations = l.activations + 1 := by
  cases h with
  | stays | ends => exact absurd hf hnew
  | starts =>
    obtain rfl : f = l.frames := Nat.le_antisymm (Nat.le_of_lt_succ hf) (Nat.le_of_not_lt hnew)
    exact ⟨rfl, congrArg Prod.fst l.enter_mark_self, rfl⟩

end Turns

theorem Carries.lt (h : l.Carries fs) (hf : f ∈ fs) : f < l.frames :=
  ((h.onStack f).1 hf).1

theorem Carries.enter (h : l.Carries fs) (hlt : l.depth < l.settings.maxDepth) :
    l.enter.Carries (l.frames :: fs) := by
  have hnew : l.frames ∉ fs := fun hf => (h.lt hf).ne rfl
  refine ⟨List.nodup_cons.2 ⟨hnew, h.distinct⟩, fun f => ?_, congrArg Nat.succ h.depth, hlt⟩
  rw [List.mem_cons, show l.enter.frames = l.frames + 1 from rfl]
  rcases Nat.lt_trichotomy f l.frames with hf | rfl | hf
  · rw [l.enter_mark_of_lt hf, h.onStack f, or_iff_right hf.ne, and_iff_right hf,
      and_iff_right (hf.trans (Nat.lt_succ_self _))]
  · rw [l.enter_mark_self]
    exact iff_of_true (.inl rfl) ⟨Nat.lt_succ_self _, rfl⟩
  · refine iff_of_false ?_ fun hm => Nat.not_lt_of_le hf hm.1
    rintro (rfl | hmem)
    · exact Nat.lt_irrefl _ hf
    · exact Nat.lt_asymm hf (h.lt hmem)

theorem Carries.leave (h : l.Carries (f :: fs)) {exit : Marker} (hexit : exit ≠ .onStack) :
    (l.leave f exit).Carries fs := by
  obtain ⟨hf, hdistinct⟩ := List.nodup_cons.1 h.distinct
  obtain ⟨hlt, hm⟩ := (h.onStack f).1 List.mem_cons_self
  refine ⟨hdistinct, fun g => ?_, ?_, (Nat.sub_le _ _).trans h.bounded⟩
  · rw [leave_mark, show (l.leave f exit).frames = l.frames from rfl]
    by_cases hg : f = g
    · subst hg
      rw [if_pos ⟨rfl, hlt⟩, if_pos hm]
      exact iff_of_false hf fun hg => hexit hg.2
    · rw [if_neg fun h => hg h.1, ← h.onStack g, List.mem_cons, or_iff_right (Ne.symm hg)]
  · show l.depth - 1 = fs.length
    rw [h.depth]
    rfl

theorem Turns.carries (ht : l.Turns fs l' fs') (h : l.Carries fs) : l'.Carries fs' := by
  cases ht with
  | stays => exact ⟨h.distinct, h.onStack, h.depth, h.bounded⟩
  | starts _ hlt => exact h.enter hlt
  | ends f _ hexit => exact h.leave hexit

end Ledger

/-! ### What becomes of a machine -/

theorem Conclusion.ending_ne_onStack (c : Conclusion) (activation : Nat) :
    (c.ending activation).1 ≠ .onStack := by
  cases c with
  | value v => exact nofun
  | unwinds u => exact u.ending_marker activation

theorem Conclusion.ending_frames (c : Conclusion) (activation : Nat) :
    (c.ending activation).2.frames = [] := by
  cases c with
  | value v => rfl
  | unwinds u => exact u.ending_frames activation

namespace Machine

theorem Concludes.frames {a : Activation} {c : Conclusion} (h : m.Concludes a c k) :
    m.frames = a.frame :: Pending.frames k := by
  cases h <;> rfl

theorem frames_of_sender {job : Job} (hjob : ∀ a, job ≠ .execute a) {a b : Activation}
    (hframe : b.frame = a.frame) :
    Machine.frames ⟨w', job, .sender b :: k⟩ = Machine.frames ⟨w, .execute a, k⟩ := by
  rw [Machine.frames, Job.frames_of_ne_execute hjob]
  show Pending.frames (.sender b :: k) = a.frame :: Pending.frames k
  rw [Pending.frames_cons_of_some rfl, hframe]

theorem frames_of_enters {job : Job} {code : Code} {arguments : List Value}
    {context : Option FrameRef} (he : w.Enters job code arguments context) :
    Machine.frames ⟨w', job, k⟩ = Pending.frames k := by
  cases he <;> rfl

theorem frames_of_ending (c : Conclusion) (activation : Nat) :
    Machine.frames ⟨w, (c.ending activation).2, k⟩ = Pending.frames k := by
  rw [Machine.frames, c.ending_frames]
  rfl

theorem Goes.turns (h : m.Goes m') : m.world.ledger.Turns m.frames m'.world.ledger m'.frames := by
  cases h with
  | stays hledger hframes _ _ =>
    rw [hframes]
    exact .of_eq _ hledger
  | asks k _ hframe hjob hq =>
    rw [frames_of_sender hjob hframe, hq.ledger]
    exact .stays _ _ _
  | starts k he hlt hledger =>
    rw [frames_of_enters he]
    exact hledger ▸ .starts _ hlt
  | refuses k he hge =>
    rw [frames_of_enters he]
    exact .of_eq _ rfl
  | ends hc hjob hledger =>
    rw [hc.frames, hjob, frames_of_ending]
    exact hledger ▸ .ends _ _ (Conclusion.ending_ne_onStack _ _)

theorem Asked.frames (h : m.Asked k) : m.frames = Pending.frames k := by
  cases h with
  | told => rfl
  | answered _ _ _ hp | unwound _ _ _ hp =>
    rcases hp with rfl | rfl <;> rfl

/-- What a host asks for is not in progress yet. -/
theorem turns_of_bids {r : Job × World} (hr : m.world.Bids r) (hk : Pending.frames k = m.frames) :
    m.world.ledger.Turns m.frames (after k r).world.ledger (after k r).frames := by
  have hframes : (after k r).frames = m.frames := by
    rw [Machine.frames, show (after k r).job.frames = [] from Job.frames_of_ne_execute hr.job.1]
    exact hk
  rw [hframes, show (after k r).world.ledger = _ from hr.ledger]
  exact .stays _ _ _

/-- What becomes of a machine starts an activation, or ends the innermost one, or neither. -/
theorem Proceeds.turns (hp : m.Proceeds m') (h : m.Sound s) :
    m.world.ledger.Turns m.frames m'.world.ledger m'.frames := by
  cases hp with
  | step => exact (step_goes h).turns
  | @change w hc hsettings hthread =>
    have hledger := hc.ledger
    rw [hsettings, hthread] at hledger
    exact hledger ▸ .stays _ m.world.sites w.held
  | request hi hr =>
    exact turns_of_bids hr (frames_of_idle hi).symm
  | consult hk hr hp =>
    refine turns_of_bids hr (Eq.trans ?_ hk.frames.symm)
    rcases hp with rfl | rfl <;> rfl
  | reply hk _ | refuse hk _ =>
    rw [hk.frames]
    exact .of_eq _ rfl

end Machine

/-! ### What ensembles keep -/

namespace Ensemble

variable {p : World → Prop} {e e' : Ensemble}

/-- What holds of the ledger of an ensemble. -/
structure Kept (e : Ensemble) : Prop where
  carries : e.machine.world.ledger.Carries e.machine.frames
  /-- Where it is not a machine's turn nothing is in progress. -/
  rests : ∀ i ≠ e.turn, (e.thread i).depth = 0
  counted : ∀ f < e.machine.world.heap.frames.size,
    (e.machine.world.heap.frame f).activation ≤ (e.thread (e.starter f)).activations
  /-- No two activations of a machine have the same number. -/
  apart : ∀ f < e.machine.world.heap.frames.size, ∀ g < e.machine.world.heap.frames.size,
    e.starter f = e.starter g →
      (e.machine.world.heap.frame f).activation = (e.machine.world.heap.frame g).activation → f = g

theorem Kept.advance (h : e.Kept) (hs : e.machine.Sound s) (hp : e.machine.Proceeds m) :
    (e.advance m).Kept := by
  have ht := hp.turns hs
  have hactivations : ∀ i, (e.thread i).activations ≤ ((e.advance m).thread i).activations := by
    intro i
    by_cases hi : i = e.turn
    · rw [hi, e.thread_turn, e.advance_thread_turn]
      exact ht.activations_le
    · rw [e.advance_thread_of_ne hi]
  refine ⟨ht.carries h.carries, fun i hi => ?_, fun f hf => ?_, fun f hf g hg hstarter heq => ?_⟩
  · rw [e.advance_thread_of_ne hi m]
    exact h.rests i hi
  · by_cases hold : f < e.machine.world.heap.frames.size
    · rw [advance_starter_of_lt hold]
      exact (ht.number hold).le.trans ((h.counted f hold).trans (hactivations _))
    · obtain ⟨-, hnumber, hcount⟩ := ht.new hf hold
      rw [advance_starter_of_not_lt hold, e.advance_thread_turn]
      exact (hnumber.trans hcount.symm).le
  -- A new activation has a number that no other one of its machine has got.
  · have hne : ∀ f < e.machine.world.heap.frames.size, ∀ g < m.world.heap.frames.size,
        ¬g < e.machine.world.heap.frames.size → (e.advance m).starter f = (e.advance m).starter g →
          (m.world.heap.frame f).activation ≠ (m.world.heap.frame g).activation := by
      intro f hf g hg hnew hstarter heq
      rw [advance_starter_of_lt hf, advance_starter_of_not_lt hnew] at hstarter
      have hcounted := h.counted f hf
      rw [hstarter, e.thread_turn] at hcounted
      have hnumber := (ht.number hf).symm.trans (heq.trans (ht.new hg hnew).2.1)
      exact absurd (hnumber.symm.le.trans hcounted) (Nat.not_succ_le_self _)
    by_cases hf' : f < e.machine.world.heap.frames.size <;>
      by_cases hg' : g < e.machine.world.heap.frames.size
    · rw [advance_starter_of_lt hf', advance_starter_of_lt hg'] at hstarter
      exact h.apart f hf' g hg' hstarter
        ((ht.number hf').symm.trans (heq.trans (ht.number hg')))
    · exact absurd heq (hne f hf' g hg hg' hstarter)
    · exact absurd heq.symm (hne g hg' f hf hf' hstarter.symm)
    · exact (ht.new hf hf').1.trans (ht.new hg hg').1.symm

theorem Kept.pass (h : e.Kept) (hi : e.machine.outcome ≠ .unfinished) {i : Nat}
    (hheap : w.heap = e.machine.world.heap) (hthread : w.thread = e.thread i) :
    (e.pass i w).Kept := by
  have hcarries := h.carries
  rw [Machine.frames_of_idle hi] at hcarries
  -- Nothing is in progress anywhere.
  have hrests : ∀ i, (e.thread i).depth = 0 := by
    intro j
    by_cases hj : j = e.turn
    · rw [hj, e.thread_turn]
      exact hcarries.depth
    · exact h.rests j hj
  have hdepth : w.thread.depth = 0 := hthread ▸ hrests i
  refine ⟨⟨.nil, ?_, hdepth, hdepth.le.trans (Nat.zero_le _)⟩, fun j _ => ?_, ?_, ?_⟩
  · have hledger := hcarries.onStack
    rwa [World.ledger, ← hheap] at hledger
  · rw [pass_thread hthread]
    exact hrests j
  · rw [pass_thread hthread, show (e.pass i w).machine.world.heap = _ from hheap]
    exact h.counted
  · rw [show (e.pass i w).machine.world.heap = _ from hheap]
    exact h.apart

theorem start_kept (hw : w.IsNew) : (start w).Kept := by
  obtain ⟨settings, hledger⟩ := hw.ledger
  have hsize : w.heap.frames.size = 0 := congrArg Ledger.frames hledger
  have hdepth : w.thread.depth = 0 := congrArg Ledger.depth hledger
  refine ⟨⟨.nil, fun f => ?_, hdepth, ?_⟩, fun i hi => ?_, ?_, ?_⟩
  · exact iff_of_false List.not_mem_nil fun hf => absurd (hsize ▸ hf.1) (Nat.not_lt_zero f)
  · exact hdepth.le.trans (Nat.zero_le _)
  · have hthread : (start w).thread i = .new := Function.update_of_ne hi _ _
    exact congrArg Thread.depth hthread
  · exact fun f hf => absurd (hsize ▸ hf) (Nat.not_lt_zero f)
  · exact fun f hf => absurd (hsize ▸ hf) (Nat.not_lt_zero f)

theorem Live.kept (h : Live p e) : e.Kept := by
  induction h with
  | start hw _ => exact start_kept hw
  | next h hn _ ih =>
    obtain ⟨s, hs⟩ := h.sound
    cases hn with
    | proceeds hp => exact ih.advance hs hp
    | yields i hi _ hheap _ _ _ _ _ hthread => exact ih.pass hi hheap hthread

theorem Next.final (hn : e.Next e') (hs : e.machine.Sound s)
    (hf : f < e.machine.world.heap.frames.size)
    (hm : (e.machine.world.heap.frame f).marker ≠ .onStack) :
    f < e'.machine.world.heap.frames.size ∧
      (e'.machine.world.heap.frame f).marker = (e.machine.world.heap.frame f).marker := by
  cases hn with
  | @proceeds m hp =>
    have ht := hp.turns hs
    exact ⟨Nat.lt_of_lt_of_le hf ht.frames_le, congrArg Prod.snd (ht.final hf hm)⟩
  | @yields w i _ _ hheap _ _ _ _ _ _ =>
    rw [show (e.pass i w).machine.world.heap = _ from hheap]
    exact ⟨hf, rfl⟩

theorem Live.final (h : Live p e) (hl : Later p e e') (hf : f < e.machine.world.heap.frames.size)
    (hm : (e.machine.world.heap.frame f).marker ≠ .onStack) :
    f < e'.machine.world.heap.frames.size ∧
      (e'.machine.world.heap.frame f).marker = (e.machine.world.heap.frame f).marker := by
  induction hl with
  | refl => exact ⟨hf, rfl⟩
  | tail hl hn ih =>
    obtain ⟨s, hs⟩ := (h.later hl).sound
    obtain ⟨hlt, hmarker⟩ := ih
    obtain ⟨hlt', hmarker'⟩ := hn.1.final hs hlt (hmarker ▸ hm)
    exact ⟨hlt', hmarker'.trans hmarker⟩

end Ensemble

/-! ### How activations end -/

namespace Conclusion

variable (c : Conclusion) (activation : Nat)

theorem returned_iff : (c.ending activation).1 = .returnedNormally ↔
    (∃ v, c = .value v) ∨ ∃ v, c = .unwinds (.nonLocal activation v) := by
  cases c with
  | value v => exact iff_of_true rfl (.inl ⟨v, rfl⟩)
  | unwinds u =>
    cases u with
    | nonLocal target v =>
      rw [ending, Unwind.ending]
      split
      · rename_i htarget
        exact iff_of_true rfl (.inr ⟨v, htarget ▸ rfl⟩)
      · rename_i htarget
        refine iff_of_false (by rintro ⟨⟩) ?_
        rintro (⟨v, hc⟩ | ⟨v, hc⟩)
        · cases hc
        · cases hc
          exact htarget rfl
    | _ => exact iff_of_false (by rintro ⟨⟩) (by rintro (⟨v, hc⟩ | ⟨v, hc⟩) <;> cases hc)

theorem unwound_iff : (c.ending activation).1 = .unwound ↔
    ∃ target v, target ≠ activation ∧ c = .unwinds (.nonLocal target v) := by
  cases c with
  | value v => exact iff_of_false (by rintro ⟨⟩) (by rintro ⟨target, v, -, hc⟩; cases hc)
  | unwinds u =>
    cases u with
    | nonLocal target v =>
      rw [ending, Unwind.ending]
      split
      · rename_i htarget
        refine iff_of_false (by rintro ⟨⟩) ?_
        rintro ⟨target, v, hne, hc⟩
        cases hc
        exact hne htarget
      · rename_i htarget
        exact iff_of_true rfl ⟨target, v, htarget, rfl⟩
    | _ => exact iff_of_false (by rintro ⟨⟩) (by rintro ⟨target, v, -, hc⟩; cases hc)

theorem aborted_iff : (c.ending activation).1 = .aborted ↔
    ∃ u, c = .unwinds u ∧ ∀ target v, u ≠ .nonLocal target v := by
  cases c with
  | value v => exact iff_of_false (by rintro ⟨⟩) (by rintro ⟨u, hc, -⟩; cases hc)
  | unwinds u =>
    cases u with
    | nonLocal target v =>
      refine iff_of_false ?_ ?_
      · rw [ending, Unwind.ending]
        split <;> rintro ⟨⟩
      · rintro ⟨u, hc, hne⟩
        cases hc
        exact hne target v rfl
    | _ => exact iff_of_true rfl ⟨_, rfl, by simp⟩

end Conclusion

namespace Machine

/-- An activation has ended by what it came to, and its frame says how. -/
structure Exits (m m' : Machine) (a : Activation) (c : Conclusion) : Prop where
  concludes : m.Concludes a c m'.pending
  /-- Its value, or the unwind that goes on. -/
  outcome : m'.job = (c.ending (m.world.heap.frame a.frame).activation).2
  /-- It has got a value, or a return that unwinds was for it. -/
  returned : (m'.world.heap.frame a.frame).marker = .returnedNormally ↔
    (∃ v, c = .value v) ∨ ∃ v, c = .unwinds (.nonLocal (m.world.heap.frame a.frame).activation v)
  /-- A return that was for another one went through it. -/
  unwound : (m'.world.heap.frame a.frame).marker = .unwound ↔
    ∃ target v, target ≠ (m.world.heap.frame a.frame).activation ∧
      c = .unwinds (.nonLocal target v)
  aborted : (m'.world.heap.frame a.frame).marker = .aborted ↔
    ∃ u, c = .unwinds u ∧ ∀ target v, u ≠ .nonLocal target v

theorem Goes.exits (h : m.Goes m') (hc : m.world.ledger.Carries m.frames) (hf : f ∈ m.frames)
    (hgone : f ∉ m'.frames) : ∃ a c, a.frame = f ∧ m.Exits m' a c := by
  cases h with
  | stays _ hframes _ _ => exact absurd (hframes ▸ hf) hgone
  | asks k _ hframe hjob _ => exact absurd ((frames_of_sender hjob hframe).symm ▸ hf) hgone
  | starts k he _ _ =>
    rw [frames_of_enters he] at hf
    exact absurd (List.mem_cons_of_mem _ hf) hgone
  | refuses k he _ =>
    rw [frames_of_enters he] at hf
    exact absurd hf hgone
  | @ends m a c job w' k hends hjob hledger =>
    rw [hends.frames] at hf hc
    rw [hjob, frames_of_ending] at hgone
    obtain rfl : f = a.frame := (List.mem_cons.1 hf).resolve_right hgone
    obtain ⟨hlt, hm⟩ := (hc.onStack a.frame).1 List.mem_cons_self
    have hmarker : (w'.heap.frame a.frame).marker =
        (c.ending (m.world.heap.frame a.frame).activation).1 := by
      have hmark := congrArg (fun l => (l.mark a.frame).2) hledger
      rw [Ledger.leave_mark, if_pos ⟨rfl, hlt⟩, if_pos hm] at hmark
      exact hmark
    refine ⟨a, c, rfl, hends, hjob, ?_, ?_, ?_⟩
    · exact hmarker ▸ c.returned_iff _
    · exact hmarker ▸ c.unwound_iff _
    · exact hmarker ▸ c.aborted_iff _

theorem Proceeds.exits (hp : m.Proceeds m') (hs : m.Sound s)
    (hc : m.world.ledger.Carries m.frames) (hf : f ∈ m.frames) (hgone : f ∉ m'.frames) :
    m' = m.step ∧ ∃ a c, a.frame = f ∧ m.Exits m.step a c := by
  -- Only a step takes a frame away.
  have hkeeps : ∀ {r : Job × World} {k}, Pending.frames k = m.frames → f ∈ (after k r).frames :=
    fun {r k} hk => List.mem_append_right _ (hk.symm ▸ hf)
  cases hp with
  | step => exact ⟨rfl, (step_goes hs).exits hc hf hgone⟩
  | change _ _ _ => exact absurd hf hgone
  | request hi _ =>
    rw [frames_of_idle hi] at hf
    cases hf
  | consult hk _ hp =>
    refine absurd (hkeeps (Eq.trans ?_ hk.frames.symm)) hgone
    rcases hp with rfl | rfl <;> rfl
  | reply hk _ | refuse hk _ =>
    rw [hk.frames] at hf
    exact absurd hf hgone

/-! ### What is pending -/

/-- Nothing that is pending is given up before it is told an outcome. -/
def Waits (m m' : Machine) : Prop :=
  ∀ k, k <:+ m.pending → k <:+ m'.pending ∨ m.job.isOutcome ∧ m.pending = k

theorem waits_of_suffix (h : m.pending <:+ m'.pending) : m.Waits m' :=
  fun _ hk => .inl (hk.trans h)

theorem waits_of_tail (ho : m.job.isOutcome) (h : m.pending.tail <:+ m'.pending) :
    m.Waits m' := by
  intro k hk
  cases hp : m.pending with
  | nil =>
    rw [hp] at hk
    exact .inr ⟨ho, (List.eq_nil_of_suffix_nil hk).symm⟩
  | cons top rest =>
    rw [hp] at hk h
    rcases List.suffix_cons_iff.1 hk with rfl | hk
    · exact .inr ⟨ho, rfl⟩
    · exact .inl (hk.trans h)

theorem Goes.waits (h : m.Goes m') : m.Waits m' := by
  cases h with
  | stays _ _ _ hk =>
    rcases hk with hk | ⟨ho, hk⟩
    · exact waits_of_suffix hk
    · exact waits_of_tail ho hk
  | asks => exact waits_of_suffix (List.suffix_cons _ _)
  | starts | refuses => exact waits_of_suffix List.suffix_rfl
  | ends hc _ _ =>
    cases hc with
    | returns | throws => exact waits_of_suffix List.suffix_rfl
    | passes | reports => exact waits_of_tail rfl List.suffix_rfl

theorem Asked.waits {job : Job} {k' : List Pending} (h : m.Asked k) (hk : k <:+ k') :
    m.Waits ⟨w, job, k'⟩ := by
  cases h with
  | told => exact waits_of_suffix hk
  | answered | unwound => exact waits_of_tail rfl hk

theorem Proceeds.waits (hp : m.Proceeds m') (hs : m.Sound s) : m.Waits m' := by
  cases hp with
  | step => exact (step_goes hs).waits
  | change => exact waits_of_suffix List.suffix_rfl
  | request hi _ =>
    refine waits_of_suffix ?_
    rw [pending_of_idle hi]
    exact List.nil_suffix
  | consult hk _ _ => exact hk.waits (List.suffix_cons _ _)
  | reply hk _ | refuse hk _ => exact hk.waits List.suffix_rfl

/-! ### Too many activations -/

theorem step_enters {job : Job} {code : Code} {arguments : List Value} {context : Option FrameRef}
    (he : w.Enters job code arguments context) (k : List Pending) :
    step ⟨w, job, k⟩ = after k (w.enter code arguments context) := by
  cases he with
  | method hlength => rw [step, invoke, if_pos hlength]
  | block hcount =>
    rw [step, evaluate, if_pos hcount]

/-- A machine fails for too many activations: it is to start one in a code, and has as many as it
    may have. -/
structure Overflows (m : Machine) (limit : Nat) (signature : Selector) : Prop where
  enters : ∃ code arguments context,
    m.world.Enters m.job code arguments context ∧ signature = code.signature
  depth : m.world.thread.depth = m.world.settings.maxDepth
  limit : limit = m.world.settings.maxDepth

variable {limit : Nat} {signature : Selector}

theorem Overflows.step (h : m.Overflows limit signature) :
    m.step = ⟨m.world, .fail (.stackOverflow limit signature), m.pending⟩ := by
  obtain ⟨⟨code, arguments, context, he, rfl⟩, hdepth, rfl⟩ := h
  obtain ⟨w, job, k⟩ := m
  rw [step_enters he, World.enter, if_neg hdepth.not_lt]
  rfl

theorem step_starts {code : Code} {arguments : List Value} {context : Option FrameRef}
    (he : m.world.Enters m.job code arguments context)
    (hlt : m.world.thread.depth < m.world.settings.maxDepth) :
    m.step.job = .execute (.start code m.world.heap.frames.size) ∧
      m.step.frames = m.world.heap.frames.size :: m.frames := by
  obtain ⟨w, job, k⟩ := m
  rw [frames_of_enters he, step_enters he, World.enter, if_pos hlt]
  exact ⟨rfl, rfl⟩

/-- No step makes a mechanical fault, but for one activation too many. -/
theorem Goes.mechanical (h : m.Goes m') (hc : m.world.ledger.Carries m.frames) {f : Fault}
    (hjob : m'.job = .fail f) (hf : f.isMechanical) :
    m'.job = m.job ∨ ∃ limit signature, f = .stackOverflow limit signature ∧
      m.Overflows limit signature := by
  have hmechanical : m'.job.isMechanical := hjob ▸ hf
  cases h with
  | stays _ _ hkeeps _ => exact .inl (hkeeps hmechanical)
  | asks k _ _ _ hq =>
    rw [hq.job] at hmechanical
    cases hmechanical
  | starts => cases hjob
  | refuses k he hge =>
    cases hjob
    exact .inr ⟨_, _, rfl, ⟨_, _, _, he, rfl⟩, hc.bounded.antisymm hge, rfl⟩
  | @ends m a c job w' k hends hending hledger =>
    obtain rfl := hjob
    cases c with
    | value v => cases hending
    | unwinds u =>
      obtain rfl := Unwind.ending_failed hending.symm
      cases hends with
      | throws k hthrows =>
        cases hthrows with
        | fails hplain =>
          rw [hplain] at hf
          cases hf
      | passes | reports => exact .inl rfl

/-- Nor does a host. -/
theorem Proceeds.mechanical (hp : m.Proceeds m') (hs : m.Sound s)
    (hc : m.world.ledger.Carries m.frames) {f : Fault} (hjob : m'.job = .fail f)
    (hf : f.isMechanical) :
    m'.job = m.job ∨ ∃ limit signature, f = .stackOverflow limit signature ∧
      m' = m.step ∧ m.Overflows limit signature := by
  have hbids : ∀ {r : Job × World}, m.world.Bids r → r.1 ≠ .fail f := by
    rintro r hr hjob
    have hplain := hr.job.2
    rw [hjob, show (Job.fail f).isMechanical = f.isMechanical from rfl, hf] at hplain
    cases hplain
  cases hp with
  | step =>
    rcases (step_goes hs).mechanical hc hjob hf with heq | ⟨limit, signature, hlimit, ho⟩
    · exact .inl heq
    · exact .inr ⟨limit, signature, hlimit, rfl, ho⟩
  | change => exact .inl rfl
  | request _ hr | consult _ hr _ => exact absurd hjob (hbids hr)
  | reply => cases hjob
  | refuse _ hu =>
    obtain rfl := Job.unwind.inj hjob
    obtain ⟨text, rfl⟩ := hu
    cases hf

end Machine

/-! ### Brackets -/

/-- Whether a job is to call something. -/
def Job.isCall : Job → Bool
  | .send _ _ | .invoke _ _ | .evaluate _ _ => true
  | _ => false

namespace Ensemble

variable {p : World → Prop} {e e' : Ensemble}

/-- What starts in an ensemble also ends, and nothing is left of it then but how it ended. -/
structure Bracketed (e : Ensemble) : Prop where
  /-- Every activation has a frame of its own. -/
  distinct : e.machine.frames.Nodup
  /-- A frame is marked as on the stack just while its activation is in progress. -/
  onStack : ∀ f, f ∈ e.machine.frames ↔ f < e.machine.world.heap.frames.size ∧
    (e.machine.world.heap.frame f).marker = .onStack
  /-- Later it is not marked otherwise than when its activation ended. -/
  final : ∀ e', Later (fun _ => True) e e' → ∀ f < e.machine.world.heap.frames.size,
    (e.machine.world.heap.frame f).marker ≠ .onStack →
      f < e'.machine.world.heap.frames.size ∧
        (e'.machine.world.heap.frame f).marker = (e.machine.world.heap.frame f).marker
  /-- An activation ends by a step, and its frame is marked by what it came to. -/
  exits : ∀ e', e.Next e' → ∀ f ∈ e.machine.frames, f ∉ e'.machine.frames →
    e'.machine = e.machine.step ∧ ∃ a c, a.frame = f ∧ e.machine.Exits e.machine.step a c
  /-- No two activations of a machine have the same number. -/
  apart : ∀ f < e.machine.world.heap.frames.size, ∀ g < e.machine.world.heap.frames.size,
    e.starter f = e.starter g →
      (e.machine.world.heap.frame f).activation = (e.machine.world.heap.frame g).activation → f = g
  /-- The activations in progress are counted. -/
  depth : e.machine.world.thread.depth = e.machine.frames.length
  rests : ∀ i ≠ e.turn, (e.thread i).depth = 0
  bounded : e.machine.world.thread.depth ≤ e.machine.world.settings.maxDepth
  /-- A call waits until it is told an outcome. -/
  waits : ∀ e', e.Next e' → e.machine.Waits e'.machine
  /-- Whatever the outcome, there are as many activations in progress as when it was called. -/
  calls : e.machine.job.isCall → ∀ e', Later (fun _ => True) e e' →
    e'.machine.pending = e.machine.pending → e'.machine.job.isOutcome →
      e'.machine.world.thread.depth = e.machine.world.thread.depth
  /-- An activation starts if there are fewer than there may be. -/
  starts : ∀ code arguments context, e.machine.world.Enters e.machine.job code arguments context →
    e.machine.world.thread.depth < e.machine.world.settings.maxDepth →
      e.machine.step.job = .execute (.start code e.machine.world.heap.frames.size) ∧
        e.machine.step.frames = e.machine.world.heap.frames.size :: e.machine.frames
  /-- One too many is refused by a fault that says so. -/
  refuses : ∀ limit signature, e.machine.Overflows limit signature →
    e.machine.step =
      ⟨e.machine.world, .fail (.stackOverflow limit signature), e.machine.pending⟩
  /-- The fault does not arise otherwise. -/
  overflows : ∀ e', e.Next e' → ∀ limit signature,
    e'.machine.job = .fail (.stackOverflow limit signature) →
      e'.machine.job = e.machine.job ∨
        e'.machine = e.machine.step ∧ e.machine.Overflows limit signature

theorem Kept.depth_of_ne_execute (h : e.Kept) (hjob : ∀ a, e.machine.job ≠ .execute a) :
    e.machine.world.thread.depth = (Pending.frames e.machine.pending).length := by
  have hdepth := h.carries.depth
  rw [Machine.frames, Job.frames_of_ne_execute hjob] at hdepth
  exact hdepth

/-- Whatever the programs are and whatever the hosts do, activations are bracketed. -/
theorem bracketed (h : Live p e) : e.Bracketed := by
  obtain ⟨s, hs⟩ := h.sound
  have hlive : Live (fun _ => True) e := h.mono fun _ _ => trivial
  have hkept := h.kept
  refine ⟨hkept.carries.distinct, hkept.carries.onStack, fun e' hl f => hlive.final hl,
    fun e' hn f hf hgone => ?_, hkept.apart, hkept.carries.depth, hkept.rests,
    hkept.carries.bounded, fun e' hn => ?_, fun hcall e' hl hk ho => ?_,
    fun code arguments context => Machine.step_starts, fun limit signature ho => ho.step,
    fun e' hn limit signature hjob => ?_⟩
  · cases hn with
    | proceeds hp =>
      obtain ⟨rfl, hexits⟩ := hp.exits hs hkept.carries hf hgone
      exact ⟨rfl, hexits⟩
    | yields i hi _ _ _ _ _ _ _ _ =>
      rw [Machine.frames_of_idle hi] at hf
      cases hf
  · cases hn with
    | proceeds hp => exact hp.waits hs
    | yields i hi _ _ _ _ _ _ _ _ =>
      refine Machine.waits_of_suffix ?_
      rw [Machine.pending_of_idle hi]
      exact List.nil_suffix
  · have hjob : ∀ a, e.machine.job ≠ .execute a := by
      rintro a ha
      rw [ha] at hcall
      cases hcall
    have hjob' : ∀ a, e'.machine.job ≠ .execute a := by
      rintro a ha
      rw [ha] at ho
      cases ho
    rw [hkept.depth_of_ne_execute hjob, (hlive.later hl).kept.depth_of_ne_execute hjob', hk]
  · cases hn with
    | proceeds hp =>
      rcases hp.mechanical hs hkept.carries hjob rfl with heq | ⟨_, _, hf, hstep, ho⟩
      · exact .inl heq
      · cases hf
        exact .inr ⟨hstep, ho⟩
    | yields i _ _ _ _ _ _ _ _ _ => cases hjob

/-! ### Nested blocks -/

/-- The host changes the world. -/
def change (e : Ensemble) (w : World) : Ensemble :=
  e.advance { e.machine with world := w }

/-- It installs a primitive in a class. -/
def equip (e : Ensemble) (c : ClassRef) (selector : Selector) (builtin : Builtin) : Ensemble :=
  let r := e.machine.world.newPrimitive selector builtin none
  let e := e.change r.2
  e.change (e.machine.world.install c (.primitive r.1))

/-- It compiles a method and has the machine run that. -/
def run (e : Ensemble) (m : MethodTree) : Ensemble :=
  let r := e.machine.world.compile Core.object m false
  let e := e.change r.2
  match r.1 with
  | .ok code => e.advance ⟨e.machine.world, .invoke (.method code) [.nil], []⟩
  | .error _ => e

theorem Live.change (h : Live (fun _ => True) e) (hc : e.machine.world.Change w)
    (hsettings : w.settings = e.machine.world.settings)
    (hthread : w.thread = e.machine.world.thread) : Live (fun _ => True) (e.change w) :=
  h.next (.proceeds (.change hc hsettings hthread)) trivial

theorem Live.equip (h : Live (fun _ => True) e) (c : ClassRef) (selector : Selector)
    (builtin : Builtin) : Live (fun _ => True) (e.equip c selector builtin) :=
  (h.change (.newPrimitive selector builtin none) rfl rfl).change
    (.install c (show World.Offers _ (.primitive _) from trivial)) rfl rfl

theorem Live.run (h : Live (fun _ => True) e) (hi : e.machine.outcome ≠ .unfinished)
    (hobject : Core.object < e.machine.world.classes.next) (m : MethodTree) :
    Live (fun _ => True) (e.run m) := by
  obtain ⟨hsettings, hthread⟩ := e.machine.world.compile_own Core.object m false
  have h' := h.change (.compile m false hobject) hsettings hthread
  have hcodes := (e.machine.world.compile_codes Core.object m false).2
  unfold Ensemble.run
  generalize e.machine.world.compile Core.object m false = r at h' hcodes ⊢
  obtain ⟨_ | code, w⟩ := r
  · exact h'
  · have hrequest : (e.change w).machine.world.Requests (.invoke (.method code) [.nil]) := by
      refine ⟨⟨code, hcodes code rfl, .self _⟩, fun v hv => ?_⟩
      rw [List.mem_singleton.1 hv]
      trivial
    have hi' : (e.change w).machine.outcome ≠ .unfinished := hi
    exact h'.next (.proceeds (.request hi' (.request hrequest))) trivial

theorem Live.iterate (h : Live (fun _ => True) e) (n : Nat) :
    Live (fun _ => True) (Ensemble.step^[n] e) := by
  induction n generalizing e with
  | zero => exact h
  | succ n ih => exact ih (h.step trivial)

/-- How the frames are marked. -/
def markers (e : Ensemble) : List Marker :=
  e.machine.world.heap.frames.toList.map Frame.marker

/-- A method that evaluates a block, which evaluates another one, and that returns from the
    method. -/
def returnOfTwo : MethodTree where
  selector := "returnOfTwo"
  parameters := []
  locals := []
  body := [.send (.block [] [] [.send (.block [] [] [.leave (.constant (.int 7))]) "value" []])
    "value" []]

/-- A machine that can evaluate blocks. -/
def evaluating : Ensemble :=
  (start (.bare .standard .standard .kept false)).equip Core.block "value" .blockValue

/-- The inner block is to return. -/
def nested : Ensemble :=
  step^[10] (evaluating.run returnOfTwo)

set_option maxRecDepth 10000 in
theorem frames_nested : nested.machine.frames = [2, 1, 0] := by
  cbv

set_option maxRecDepth 10000 in
theorem markers_nested : nested.markers = [.onStack, .onStack, .onStack] := by
  cbv

set_option maxRecDepth 10000 in
theorem frames_step_nested : (step^[3] nested).machine.frames = [] := by
  cbv

set_option maxRecDepth 10000 in
theorem markers_step_nested :
    (step^[3] nested).markers = [.returnedNormally, .unwound, .unwound] := by
  cbv

theorem live_nested : Live (fun _ => True) nested := by
  have h : Live (fun _ => True) evaluating :=
    (Live.start (.bare .standard .standard .kept false) trivial).equip _ _ _
  exact (h.run (by cbv; rintro ⟨⟩) (by cbv) returnOfTwo).iterate 10

/-- The method and both blocks have frames marked as on the stack. Three steps later all of them
    have ended, and by then the method has returned and the blocks are unwound. -/
theorem bracketed_nested : Live (fun _ => True) nested ∧ nested.Bracketed ∧
    nested.machine.frames = [2, 1, 0] ∧ nested.markers = [.onStack, .onStack, .onStack] ∧
      (step^[3] nested).machine.frames = [] ∧
        (step^[3] nested).markers = [.returnedNormally, .unwound, .unwound] :=
  ⟨live_nested, bracketed live_nested, frames_nested, markers_nested, frames_step_nested,
    markers_step_nested⟩

end Ensemble

end Parley
