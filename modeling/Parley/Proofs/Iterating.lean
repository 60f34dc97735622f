import Mathlib
import Parley.Proofs.Declining
import Parley.Proofs.Indexing

/-!
# Every number once

The law of loops over integers, whoever does the loop. A loop that the library does counts by itself
(`Iteration.Counting`), and one that is written out keeps its index on the stack
(`Iteration.Turning`). Either way a machine that the loop has come to is at a stage of it
(`Iteration.Stage`), with so many numbers handed to the body, and the law is read off the stage.
-/

namespace Parley

namespace Iteration

open Machine (step)

variable {l : Iteration} {m m' : Machine} {body : BlockRef} {i : Nat} {v : Value} {s : Stock}
  {ran : FrameRef → Code}

/-! ### Loops that the library does -/

/-- What waits while the body is evaluated for so many numbers. -/
def waiting (l : Iteration) (body : BlockRef) (i : Nat) : Pending :=
  .counting (l.start.toInt + i) l.limit.toInt body (.int l.start)

/-- A loop that the library does, when the body was handed so many numbers. -/
inductive Counting (l : Iteration) (body : BlockRef) (i : Nat) : Machine → Prop
  | counts (w : World) : i ≤ l.count → Counting l body i
      ⟨w, .count (l.start.toInt + i) l.limit.toInt body (.int l.start), l.outer⟩
  | evaluates {m : Machine} : i ≤ l.count → l.waiting body i :: l.outer <:+ m.pending →
      Counting l body i m
  | answers (w : World) : i = l.count → Counting l body i ⟨w, .answer (.int l.start), l.outer⟩
  | left (w : World) (u : Unwind) : Counting l body i ⟨w, .unwind u, l.outer⟩

namespace Counting

theorem zero (w : World) : Counting l body 0
    ⟨w, .count l.start.toInt l.limit.toInt body (.int l.start), l.outer⟩ := by
  have hcounts : Counting l body 0
      ⟨w, .count (l.start.toInt + (0 : Nat)) l.limit.toInt body (.int l.start), l.outer⟩ :=
    .counts w (Nat.zero_le _)
  rwa [Int.ofNat_zero, Int.add_zero] at hcounts

variable (hform : l.form = .called body)

include hform

theorem hands_step (h : Counting l body i m) (hv : l.Hands m v) : i < l.count ∧ v = l.number i ∧
    Counting l body (i + 1) m.step ∧ l.Receives m.step v := by
  unfold Hands at hv
  unfold Receives
  rw [hform] at hv ⊢
  obtain ⟨hpending, ⟨next, hjob⟩, hstep⟩ := hv
  cases h with
  | counts w hi =>
    rw [step] at hstep ⊢
    split at hstep
    · rename_i hle
      rw [if_pos hle]
      have hlt := l.lt_count_iff.2 hle
      have hnext : .counting (l.start.toInt + i + 1) l.limit.toInt body (.int l.start) =
          l.waiting body (i + 1) := by
        rw [waiting, Nat.cast_succ, Int.add_assoc]
      cases hstep
      exact ⟨hlt, rfl, .evaluates hlt ⟨[], congrArg (· :: l.outer) hnext.symm⟩, rfl, _, rfl⟩
    · cases hstep
  | evaluates hi hk => exact absurd hpending (ne_of_suffix hk)
  | answers _ _ | left _ _ => cases hjob

/-- Up to the limit the next number is handed to the body. -/
theorem hands_counts (w : World) (hi : i < l.count) : l.Hands
    ⟨w, .count (l.start.toInt + i) l.limit.toInt body (.int l.start), l.outer⟩ (l.number i) := by
  refine ⟨rfl, ?_⟩
  rw [hform]
  refine ⟨⟨_, rfl⟩, ?_⟩
  rw [step, if_pos (l.lt_count_iff.1 hi)]
  rfl

omit hform in
/-- Past the limit the loop comes to its value. -/
theorem step_counts (w : World) (hi : ¬ i < l.count) :
    step ⟨w, .count (l.start.toInt + i) l.limit.toInt body (.int l.start), l.outer⟩ =
      ⟨w, .answer (.int l.start), l.outer⟩ := by
  rw [step, if_neg fun hle => hi (l.lt_count_iff.2 hle)]

theorem steps_step (h : Counting l body i m) (hs : m.Sound s) (ho : ¬ l.Over m)
    (hv : ∀ v, ¬ l.Hands m v) : Counting l body i m.step := by
  cases h with
  | counts w hi =>
    by_cases hlt : i < l.count
    · exact absurd (hands_counts hform w hlt) (hv _)
    · rw [step_counts w hlt]
      exact .answers w (Nat.le_antisymm hi (Nat.le_of_not_lt hlt))
  | evaluates hi hk =>
    by_cases hend : m.job.isOutcome ∧ m.pending = l.waiting body i :: l.outer
    · obtain ⟨w, job, k⟩ := m
      obtain ⟨hjob, rfl⟩ := hend
      cases job with
      | answer v => exact .counts w hi
      | unwind u => exact .left w u
      | _ => cases hjob
    · exact .evaluates hi (Machine.step_keeps hs hk fun hjob hp => hend ⟨hjob, hp⟩)
  | answers w hi => exact absurd (.inl ⟨_, answers_of_called hform w _⟩) ho
  | left w u => exact absurd (.inr (left_of_called hform w u)) ho

theorem meanwhile (h : Counting l body i m) (ho : ¬ l.Over m) (hn : m.Next m')
    (hne : m' ≠ m.step) : Counting l body i m' := by
  cases h with
  | counts w hi =>
    rw [hn.prepares hne rfl rfl nofun]
    exact .counts _ hi
  | evaluates hi hk => exact .evaluates hi (hn.keeps hne nofun hk)
  | answers w hi => exact absurd (.inl ⟨_, answers_of_called hform w _⟩) ho
  | left w u => exact absurd (.inr (left_of_called hform w u)) ho

theorem soon_counts (w : World) (hi : i ≤ l.count) : l.Soon 1 (l.values.take i)
    ⟨w, .count (l.start.toInt + i) l.limit.toInt body (.int l.start), l.outer⟩ := by
  by_cases hlt : i < l.count
  · exact .of_hands (hands_counts hform w hlt)
  · obtain rfl : i = l.count := Nat.le_antisymm hi (Nat.le_of_not_lt hlt)
    refine .cons ?_ ?_ ?_
    · unfold Over Answers Left
      rw [hform]
      rintro (⟨v, -, hjob⟩ | ⟨-, u, hjob⟩) <;> cases hjob
    · unfold Hands
      rw [hform]
      rintro v ⟨-, -, hjob⟩
      rw [step_counts w hlt] at hjob
      cases hjob
    · rw [step_counts w hlt]
      exact .of_answers (answers_of_called hform w _) l.take_count

theorem soon (h : Counting l body i m) (hover : ¬ l.Over m) (he : ¬ l.Evaluates m) :
    l.Soon 2 (l.values.take i) m := by
  cases h with
  | counts w hi => exact (soon_counts hform w hi).mono (Nat.le_succ 1)
  | evaluates hi hk =>
    unfold Evaluates at he
    rw [hform] at he
    have hanswer : ∃ v, m.job = .answer v ∧ m.pending = l.waiting body i :: l.outer :=
      by_contra fun hnot => he ⟨_, hk, fun v hjob hp => hnot ⟨v, hjob, hp⟩⟩
    obtain ⟨v, hjob, hpending⟩ := hanswer
    obtain ⟨w, job, k⟩ := m
    cases hjob
    cases hpending
    exact .cons hover (not_hands_of_suffix hk) (soon_counts hform w hi)
  | answers w hi => exact absurd (.inl ⟨_, answers_of_called hform w _⟩) hover
  | left w u => exact absurd (.inr (left_of_called hform w u)) hover

theorem answers_eq (h : Counting l body i m) (hv : l.Answers m v) :
    v = .int l.start ∧ i = l.count := by
  unfold Answers at hv
  rw [hform] at hv
  obtain ⟨hpending, hjob⟩ := hv
  cases h with
  | counts _ _ | left _ _ => cases hjob
  | evaluates _ hk => exact absurd hpending (ne_of_suffix hk)
  | answers w hi =>
    cases hjob
    exact ⟨rfl, hi⟩

theorem unwinds (h : Counting l body i m) {u : Unwind} {p : Pending} (hjob : m.job = .unwind u)
    (hk : m.pending = p :: l.outer) :
    l.Left m.step ∧ m.step.job = l.onward u m.world ∧ m.step.pending = l.outer := by
  cases h with
  | counts _ _ | answers _ _ => cases hjob
  | left w u' => exact absurd hk.symm (List.cons_ne_self _ _)
  | evaluates hi hsuffix =>
    obtain ⟨w, job, k⟩ := m
    cases hjob
    cases hk
    rcases List.suffix_cons_iff.1 hsuffix with heq | hsuffix
    · cases heq
      rw [onward, hform]
      exact ⟨left_of_called hform w u, rfl, rfl⟩
    · exact absurd rfl (ne_of_suffix hsuffix)

end Counting

/-! ### Any loop -/

/-- A loop in progress, when the body was handed so many numbers. -/
inductive Stage (l : Iteration) (i : Nat) (m : Machine) : Prop
  | called {body : BlockRef} : l.form = .called body → l.Counting body i m → Stage l i m
  | inlined {code : Code} {frame : FrameRef} {entry exit : Nat} {slot : UInt8} {rest : List Value}
      {R : Nat → Nat → Prop} : l.form = .inlined code frame entry exit slot rest →
      code.program.Counts entry exit slot → code.program.Region (entry + 8) exit R →
      R (entry + 8) 0 → l.Turning code frame entry exit rest R i m → Stage l i m

namespace Stage

theorem hands_step (h : l.Stage i m) (ho : m.Ordinary ran) (hv : l.Hands m v) :
    i < l.count ∧ v = l.number i ∧ l.Stage (i + 1) m.step ∧ l.Receives m.step v := by
  cases h with
  | called hform hs =>
    obtain ⟨hi, hnumber, hs, hr⟩ := hs.hands_step hform hv
    exact ⟨hi, hnumber, .called hform hs, hr⟩
  | inlined hform hc hR hstart hs =>
    obtain ⟨hi, hnumber, hs, hr⟩ := hs.hands_step hform hc hR hstart ho hv
    exact ⟨hi, hnumber, .inlined hform hc hR hstart hs, hr⟩

theorem steps_step (h : l.Stage i m) (ho : m.Ordinary ran) (hover : ¬ l.Over m)
    (hv : ∀ v, ¬ l.Hands m v) : l.Stage i m.step := by
  cases h with
  | called hform hs =>
    obtain ⟨s, hsound⟩ := ho.settled.stock
    exact .called hform (hs.steps_step hform hsound hover hv)
  | inlined hform hc hR hstart hs =>
    exact .inlined hform hc hR hstart (hs.steps_step hform hc hR ho hover hv)

theorem meanwhile (h : l.Stage i m) (hover : ¬ l.Over m) (hn : m.Next m') (hne : m' ≠ m.step) :
    l.Stage i m' := by
  cases h with
  | called hform hs => exact .called hform (hs.meanwhile hform hover hn hne)
  | inlined hform hc hR hstart hs =>
    exact .inlined hform hc hR hstart (hs.meanwhile hform hover hn hne)

/-- The law holds at every stage. -/
theorem law (h : l.Stage i m) (ho : m.Ordinary ran) : l.Law (l.values.take i) m where
  ordered := List.take_prefix i l.values
  hands v hv := by
    obtain ⟨hi, rfl, -, hr⟩ := h.hands_step ho hv
    exact ⟨l.take_succ hi ▸ List.take_prefix (i + 1) l.values, hr⟩
  answers v hv := by
    have heq : v = .int l.start ∧ i = l.count := by
      cases h with
      | called hform hs => exact hs.answers_eq hform hv
      | inlined hform hc hR _ hs => exact hs.answers_eq hform hc hR hv
    exact ⟨heq.1, heq.2 ▸ l.take_count⟩
  turns hover he := by
    cases h with
    | called hform hs => exact (hs.soon hform hover he).mono (by decide)
    | inlined hform hc hR _ hs => exact hs.soon hform hc hR hover he
  unwinds u p hjob hk hsettles := by
    cases h with
    | called hform hs => exact hs.unwinds hform hjob hk
    | inlined hform _ _ _ hs => exact hs.unwinds hform hjob hk hsettles
  ends hleft hk f hf m' hl := by
    unfold frame? at hf
    cases h with
    | called hform hs =>
      rw [hform] at hf
      cases hf
    | inlined hform _ _ _ hs =>
      rw [hform] at hf
      cases hf
      obtain ⟨hlt, hm⟩ := hs.marked hform hleft hk
      exact ho.ended hl hlt hm

end Stage

/-- Whatever comes next of a machine, it is at a stage of the loop. -/
theorem Course.stage {vs : List Value} (hc : l.Course m vs m') (ho : m.Ordinary ran)
    (hs : l.Stage 0 m) : ∃ i ran', m'.Ordinary ran' ∧ vs = l.values.take i ∧ l.Stage i m' := by
  induction hc with
  | begins => exact ⟨0, ran, ho, rfl, hs⟩
  | hands _ hv ih =>
    obtain ⟨i, ran', ho, rfl, hs⟩ := ih
    obtain ⟨hi, rfl, hs, -⟩ := hs.hands_step ho hv
    exact ⟨i + 1, _, ho.next (.step _), l.take_succ hi, hs⟩
  | steps _ hover hv ih =>
    obtain ⟨i, ran', ho, rfl, hs⟩ := ih
    exact ⟨i, _, ho.next (.step _), rfl, hs.steps_step ho hover hv⟩
  | meanwhile _ hover hn hne ih =>
    obtain ⟨i, ran', ho, rfl, hs⟩ := ih
    exact ⟨i, _, ho.next hn, rfl, hs.meanwhile hover hn hne⟩

/-! ### How a loop begins -/

section Sends

variable {w w' : World} {loc : Location} {selector : Selector} {start limit : Int64}
  (hb : (w.heap.closure body).parameterCount = 1)

include hb

theorem throughSite_counts (n : Nat) (hheap : w'.heap = w.heap)
    (hclasses : w'.classes = w.classes) :
    throughSite loc (.eager .count (w.classOf (.int start)) w.classes.epoch n) selector
      [.int start, .int limit, .block body] w' =
        (.count start.toInt limit.toInt body (.int start), w') := by
  have hvalid : (w.classes.epoch = w'.classes.epoch &&
      w'.classOf (.int start) = w.classOf (.int start)) = true := by
    rw [hclasses]
    simp [World.classOf]
  have happly : Shortcut.count.apply? [.int start, .int limit, .block body] w' =
      some (.count start.toInt limit.toInt body (.int start), w') := by
    rw [← hheap] at hb
    exact if_pos hb
  rw [throughSite]
  exact (if_pos hvalid).trans (by rw [happly])

theorem sendFrom_counts (ht : w.takes? loc selector (.int start) = some .count) : ∃ w',
    sendFrom loc selector [.int start, .int limit, .block body] w =
      (.count start.toInt limit.toInt body (.int start), w') := by
  unfold World.takes? at ht
  unfold sendFrom
  split at ht
  · rename_i op cls epoch n hsite
    split at ht
    · rename_i hvalid
      cases ht
      obtain ⟨hepoch, hcls⟩ := Bool.and_eq_true_iff.1 hvalid
      obtain rfl := of_decide_eq_true hepoch
      obtain rfl := of_decide_eq_true hcls
      rw [hsite]
      exact ⟨w, throughSite_counts hb n rfl rfl⟩
    · cases ht
  · cases ht
  · rename_i hsite
    have hfirst : w.firstSite selector (.int start) =
        .eager .count (w.classOf (.int start)) w.classes.epoch selector.arity := by
      rw [World.firstSite, ht]
    rw [hsite, show argument [.int start, .int limit, .block body] 0 = .int start from rfl]
    dsimp only
    rw [hfirst]
    refine ⟨_, throughSite_counts hb _ ?_ ?_⟩
    · exact (World.rerecords_note _ _).heap
    · exact congrArg Stage.classes (World.note_stage _ _)

end Sends

/-- A loop begins at its first stage. -/
theorem Begins.stage (h : l.Begins m) (ho : m.Ordinary ran) : l.Stage 0 m.step := by
  cases h with
  | @primitive w p start limit body k hp harity =>
    have hlength : [Value.int start, .int limit, .block body].length = p.selector.arity + 1 := by
      rw [harity]
      rfl
    have hstep : step ⟨w, .invoke (.primitive p) [.int start, .int limit, .block body], k⟩ =
        ⟨w, .count start.toInt limit.toInt body (.int start), k⟩ := by
      rw [step, Machine.invoke, if_pos hlength, hp]
      rfl
    rw [hstep]
    exact .called rfl (.zero w)
  | @eager w a selector start limit body rest k hsend harity hstack ht hb =>
    obtain ⟨hop, hliteral⟩ := Machine.sends?_eq_some hsend
    obtain ⟨w', hsent⟩ := sendFrom_counts (w := w.count fun t => { t with sends := t.sends + 1 })
      hb ht
    have hstep : step ⟨w, .execute a, k⟩ = ⟨w', .count start.toInt limit.toInt body (.int start),
        .sender { a with ip := a.ip + (Opcode.send false).size, stack := rest } :: k⟩ := by
      rw [Machine.step_execute hop, Machine.instruction, Machine.sendInstruction, hliteral]
      dsimp only
      have hlength : ¬ a.stack.length < selector.arity + 1 := by
        rw [harity, hstack]
        simp
      rw [if_neg hlength, if_neg Bool.false_ne_true, harity, hstack]
      exact congrArg (Machine.after _) hsent
    rw [hstep]
    exact .called rfl (.zero w')
  | @inlined w a start limit wide exit rest k hip hop htarget hstack =>
    obtain ⟨entry, exit', slot, hentry, hc⟩ := ho.counts rfl hip hop
    obtain rfl := Nat.add_right_cancel hentry
    obtain ⟨wide', first, second, hr, ht⟩ := hc.tests
    obtain rfl : exit = exit' := by
      have hopcode := hr.opcode.symm.trans hop
      cases hopcode
      exact Nat.add_right_cancel (Option.some.inj (htarget.symm.trans ht))
    obtain rfl : slot = a.code.program.tape.byteAt (a.ip + 6) := (hc.hands.first (by decide)).symm
    obtain ⟨R, hR, hstart⟩ := hc.body
    have hstep : step ⟨w, .execute a, k⟩ = ⟨w, .execute ⟨a.code, a.frame, a.ip + 1,
        .int start :: .int limit :: .int start :: rest, a.backEdges⟩, k⟩ := by
      rw [Machine.step_execute hc.copies.opcode, Machine.instruction]
      simp only [hstack]
      rfl
    rw [hstep]
    exact .inlined rfl hc hR hstart (.zero w a.backEdges)

end Iteration

/-- Loops over integers obey their law, on every path. -/
theorem Machine.Ordinary.iterates {m m' : Machine} {ran : FrameRef → Code} {l : Iteration}
    {vs : List Value} (h : m.Ordinary ran) (hl : l.Begins m) (hc : l.Course m.step vs m') :
    l.Law vs m' := by
  obtain ⟨i, ran', ho, rfl, hs⟩ := hc.stage (h.next (.step m)) (hl.stage h)
  exact hs.law ho

/-! ### A loop that assigns its parameter -/

/-- A method with a loop whose body assigns its own parameter. -/
def spoiling : MethodTree where
  selector := "spoil"
  parameters := []
  locals := []
  body := [.send (.constant (.int 1)) "to:do:"
    [.constant (.int 2), .block ["i"] [] [.assign "i" (.constant (.int 9))]]]

namespace Machine

/-- A host runs the method, with the loop written out. -/
def spoils : Machine :=
  running (World.bare .standard .standard .kept false) Core.object spoiling true [.nil]

/-- What a loop hands to its body within so many steps, if it is not over before. -/
def passes? (entry exit : Nat) : Nat → Machine → Option (List Value)
  | 0, _ => some []
  | n + 1, ⟨w, .execute a, []⟩ =>
    if a.ip = exit + 5 then none
    else if a.ip = entry + 5 then
      a.stack.head?.bind fun v => (passes? entry exit n (step ⟨w, .execute a, []⟩)).map (v :: ·)
    else passes? entry exit n (step ⟨w, .execute a, []⟩)
  | _ + 1, _ => none

theorem course_of_passes {l : Iteration} {code : Code} {frame : FrameRef} {entry exit n : Nat}
    {slot : UInt8} {rest vs : List Value} {m : Machine}
    (hform : l.form = .inlined code frame entry exit slot rest) (hk : l.outer = [])
    (h : m.passes? entry exit n = some vs) : l.Course m vs (step^[n] m) := by
  induction n generalizing m vs with
  | zero =>
    cases h
    exact .begins
  | succ n ih =>
    unfold passes? at h
    split at h
    · cases ‹Nat.succ n = 0›
    · rename_i w a heq
      obtain rfl := Nat.succ.inj heq
      rw [← hk]
      split at h
      · cases h
      · rename_i hexit
        split at h
        · rename_i hentry
          obtain ⟨v, hv, hvs⟩ := Option.bind_eq_some_iff.1 h
          obtain ⟨us, hus, rfl⟩ := Option.map_eq_some_iff.1 hvs
          obtain ⟨stack, hstack⟩ := List.head?_eq_some_iff.1 hv
          refine .cons_hands ?_ ?_
          · refine ⟨rfl, ?_⟩
            rw [hform]
            exact ⟨a, stack, rfl, hentry, hstack⟩
          · rw [hk]
            exact ih hus
        · rename_i hentry
          exact .cons (Iteration.not_over_of_inlined hform hexit)
            (Iteration.not_hands_of_inlined hform hentry)
            (hk ▸ ih h)
    · cases h

/-- What is executed, when nothing waits for it. -/
def doing? : Machine → Option Activation
  | ⟨_, .execute a, []⟩ => some a
  | _ => none

theorem eq_of_doing {m : Machine} {a : Activation} (h : m.doing? = some a) :
    m = ⟨m.world, .execute a, []⟩ := by
  unfold doing? at h
  split at h
  · cases h
    rfl
  · cases h

/-- The loop from one to two whose body an activation is to evaluate up to its instruction 17. -/
def spoiled (a : Activation) : Iteration where
  start := 1
  limit := 2
  form := .inlined a.code a.frame a.ip 17 (a.code.program.tape.byteAt (a.ip + 6)) []
  outer := []

/-- Whether the loop begins. -/
def begins? (a : Activation) : Bool :=
  decide (a.ip = 3 ∧ a.stack = [.int 2, .int 1] ∧ a.ip + 1 ∈ a.code.program.tape.starts ∧
    a.code.program.tape.opcode? (a.ip + 1) = some (.jump .greater false) ∧
    a.code.program.tape.jumpTarget? (a.ip + 1) .greater false = some (17 + 5))

set_option maxRecDepth 10000 in
theorem begins_spoils : (step^[3] spoils).doing?.any begins? := by
  cbv

set_option maxRecDepth 10000 in
theorem passes_spoils : (step^[4] spoils).passes? 3 17 19 = some [.int 1, .int 2] := by
  cbv

set_option maxRecDepth 10000 in
theorem answers_spoils : (step^[23] spoils).doing? = (step^[3] spoils).doing?.map fun a =>
    { a with ip := 17 + 5, stack := [.int 1], backEdges := 2 } := by
  cbv

/-- The body is handed one and two, whatever it assigns, and the value is one. -/
theorem Ordinary.iterates_spoils : ∃ ran, ∃ l : Iteration, (step^[3] spoils).Ordinary ran ∧
    l.Begins (step^[3] spoils) ∧ l.Course (step^[4] spoils) [.int 1, .int 2] (step^[23] spoils) ∧
    l.Law [.int 1, .int 2] (step^[23] spoils) ∧ l.Answers (step^[23] spoils) (.int 1) := by
  obtain ⟨ran, h⟩ := (Ordinary.bare .standard .standard .kept false).compiled (by rintro ⟨⟩)
    (show Core.object < _ by decide) spoiling true
    (World.covers_singleton (show Value.nil.Within _ from trivial))
  obtain ⟨ran, h⟩ := h.iterate 3
  have h : Machine.Ordinary (step^[3] spoils) ran := h
  have hanswers := answers_spoils
  have hpasses := passes_spoils
  have hnext : step^[4] spoils = (step^[3] spoils).step := Function.iterate_succ_apply' step 3
    spoils
  have hlast : step^[23] spoils = step^[19] (step^[4] spoils) :=
    Function.iterate_add_apply step 19 4 spoils
  obtain ⟨a, ha, hbegins⟩ := (Option.any_eq_true _ _).1 begins_spoils
  rw [hnext] at hlast hpasses ⊢
  generalize step^[23] spoils = m' at hanswers hlast ⊢
  generalize step^[3] spoils = m at h ha hpasses hanswers hlast ⊢
  obtain ⟨hip, hstack, hstart, hop, htarget⟩ := of_decide_eq_true hbegins
  have hbegins : (spoiled a).Begins m := eq_of_doing ha ▸ .inlined hstart hop htarget hstack
  have hcourse : (spoiled a).Course m.step [.int 1, .int 2] (step^[19] m.step) :=
    course_of_passes rfl rfl (hip ▸ hpasses)
  rw [← hlast] at hcourse
  refine ⟨ran, spoiled a, h, hbegins, hcourse, h.iterates hbegins hcourse, ?_⟩
  rw [ha] at hanswers
  rw [eq_of_doing hanswers]
  exact ⟨rfl, _, rfl, rfl, rfl, rfl, rfl⟩

end Machine

end Parley
