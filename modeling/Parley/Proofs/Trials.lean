import Parley.Proofs.Answering
import Parley.Proofs.Dialogues

/-!
# Dialogues about the workloads

A host that defines `Bench` and sends messages of workloads to instances of it (`Dialogue.trial`)
has a careful dialogue, and is told the results of the workloads, whatever its machine remembers at
call sites (`Dialogue.trial_told`).

Until everything was told, the machine is tame at every step (`Dialogue.Tamely`): it has nothing to
do while the host defines something, and while a workload runs it is tame because the reference
machine is (`Machine.Sound.attains`).
-/

namespace Parley

open Workload

variable {s : Stock} {w w' : World} {v : Value}

namespace Machine

theorem isFinal_of_outcome {m : Machine} (h : m.outcome ≠ .unfinished) : m.isFinal := by
  obtain ⟨w, job, k⟩ := m
  cases job with
  | answer _ | unwind _ =>
    cases k with
    | nil => rfl
    | cons p k => exact absurd rfl h
  | _ => exact absurd rfl h

theorem Answers.tame {m : Machine} (h : m.Answers v) : m.Tame := by
  refine ⟨fun p arguments hp => ?_, fun a selector ha => ?_⟩
  · cases h.1.symm.trans hp
  · cases h.1.symm.trans ha

end Machine

namespace Dialogue

variable {d d' d'' : Dialogue} {act : Act} {acts : List Act} {answers : List Answer}

/-! ### Dialogues that go on tamely -/

/-- A dialogue comes to another one, and its machine is tame until then. -/
inductive Tamely : Dialogue → Dialogue → Prop
  | refl (d : Dialogue) : Tamely d d
  | head {d d' : Dialogue} : d.machine.Tame → Tamely d.step d' → Tamely d d'

theorem Tamely.single (h : d.machine.Tame) : Tamely d d.step :=
  .head h (.refl _)

theorem Tamely.trans (h : Tamely d d') (h' : Tamely d' d'') : Tamely d d'' := by
  induction h with
  | refl => exact h'
  | head hd _ ih => exact .head hd (ih h')

theorem Tamely.exists_iterate (h : Tamely d d') : ∃ n, step^[n] d = d' := by
  induction h with
  | refl d => exact ⟨0, rfl⟩
  | head _ _ ih =>
    obtain ⟨n, hn⟩ := ih
    exact ⟨n + 1, hn⟩

theorem Tamely.careful (h : Tamely d d') (hc : d'.Careful) : d.Careful := by
  induction h with
  | refl => exact hc
  | head hd _ ih =>
    intro n
    cases n with
    | zero => exact ⟨hd.not_lags, hd.not_orphaned⟩
    | succ n => exact ih hc n

theorem Over.careful (h : d.Over) (hm : d.machine.Tame) : d.Careful := by
  have hstep : d.step = d := by
    unfold Dialogue.step stepBy
    rw [h.1, h.2]
  intro n
  rw [Function.iterate_fixed hstep]
  exact ⟨hm.not_lags, hm.not_orphaned⟩

theorem idle_tame (w : World) : (idle w).Tame :=
  ⟨nofun, nofun⟩

/-! ### Between two acts -/

/-- The machine has nothing to do in a world. The host was given these answers, and is going to do
    these acts. -/
structure Between (d : Dialogue) (w : World) (acts : List Act) (answers : List Answer) : Prop where
  machine : d.machine = idle w
  waits : d.waits = none
  acts : d.acts = acts
  answers : d.turns.map Turn.answer = answers

theorem Between.over (h : d.Between w [] answers) : d.Over ∧ d.Careful := by
  have hover : d.Over := ⟨h.waits, h.acts⟩
  exact ⟨hover, hover.careful (h.machine ▸ idle_tame w)⟩

/-- An act that is answered at once. -/
theorem Between.perform (h : d.Between w (act :: acts) answers) (answer : Answer)
    (hact : ∀ registers, act.perform registers w = (.inl answer, w')) :
    ∃ d', Tamely d d' ∧ d'.Between w' acts (answers ++ [answer]) := by
  have hworld : d.machine.world = w := h.machine ▸ rfl
  have hstep : d.step = tell answer { d with machine := idle w', acts } := by
    unfold Dialogue.step stepBy
    rw [h.waits, h.acts, hworld]
    dsimp only
    rw [hact]
  refine ⟨d.step, .single (h.machine ▸ idle_tame w), hstep ▸ ⟨rfl, h.waits, rfl, ?_⟩⟩
  rw [← h.answers]
  exact List.map_append

/-- The host waits until the machine has come to an answer, and is told it. -/
theorem Tamely.of_answers {register : Option String} {j : Nat}
    (h : (Machine.step^[j] d.machine).Answers v)
    (ht : ∀ i < j, (Machine.step^[i] d.machine).Tame) (hwaits : d.waits = some register) :
    ∃ conditions, Tamely d (tell (.value v) { d with
      machine := idle (Machine.step^[j] d.machine).world
      waits := none
      registers := keep register v d.registers
      conditions }) := by
  induction j generalizing d with
  | zero =>
    have hanswers : d.machine.Answers v := h
    have houtcome : d.machine.outcome = .value v := by
      rw [Machine.outcome, hanswers.1, hanswers.2]
    refine ⟨d.conditions, .head hanswers.tame ?_⟩
    have hstep : d.step = tell (.value v) { d with
        machine := idle d.machine.world
        waits := none
        registers := keep register v d.registers } := by
      unfold Dialogue.step stepBy
      rw [hwaits]
      dsimp only
      rw [houtcome]
    rw [hstep]
    exact .refl _
  | succ j ih =>
    by_cases hu : d.machine.outcome = .unfinished
    · have hstep := stepBy_of_unfinished hwaits hu Machine.step
      obtain ⟨conditions, hd⟩ := ih (d := d.step) (by
          rw [Dialogue.step, hstep]
          exact h) (fun i hi => by
          rw [Dialogue.step, hstep]
          exact ht (i + 1) (Nat.succ_lt_succ hi)) (by
          rw [Dialogue.step, hstep]
          exact hwaits)
      refine ⟨conditions, .head (ht 0 (Nat.succ_pos j)) ?_⟩
      rw [Dialogue.step, hstep] at hd ⊢
      exact hd
    -- The machine has stopped already.
    · have hfixed := Machine.step_of_isFinal (Machine.isFinal_of_outcome hu)
      rw [Function.iterate_succ_apply, hfixed] at h ⊢
      exact ih h (fun i hi => ht i (Nat.lt_succ_of_lt hi)) hwaits

/-- An act that gives the machine a job. -/
theorem Between.send (h : d.Between w (act :: acts) answers) {job : Job} {register : Option String}
    (hact : ∀ registers, act.perform registers w = (.inr (job, register), w')) {j : Nat}
    (hanswers : (Machine.step^[j] ⟨w', job, []⟩).Answers v)
    (htame : ∀ i < j, (Machine.step^[i] ⟨w', job, []⟩).Tame) :
    ∃ d', Tamely d d' ∧
      d'.Between (Machine.step^[j] ⟨w', job, []⟩).world acts (answers ++ [.value v]) := by
  have hworld : d.machine.world = w := h.machine ▸ rfl
  have hstep : d.step = { d with machine := ⟨w', job, []⟩, waits := some register, acts } := by
    unfold Dialogue.step stepBy
    rw [h.waits, h.acts, hworld]
    dsimp only
    rw [hact]
  obtain ⟨conditions, hd⟩ := Tamely.of_answers (d := d.step) (by rw [hstep]; exact hanswers)
    (by rw [hstep]; exact htame) (by rw [hstep])
  refine ⟨_, .head (h.machine ▸ idle_tame w) hd, ?_⟩
  rw [hstep]
  refine ⟨rfl, rfl, rfl, ?_⟩
  rw [← h.answers]
  exact List.map_append

/-! ### Trials -/

/-- The host has a workload run on a new instance of `Bench`. -/
def ask (r : Workload × Int64) : Act :=
  .send r.1.selector [.instanceOf "Bench", .int r.2.toInt] none

/-- What the host is told then. -/
def result (r : Workload × Int64) : Answer :=
  .value (answer r.2.toInt r.1)

/-- The host defines `Bench` and has workloads run. -/
def trial (runs : List (Workload × Int64)) : List Act :=
  .defineClass "Bench" "Object" [] :: (methods.map (.define "Bench") ++ runs.map ask)

theorem named?_of_byName? {t : ClassTable} {name : String} {c : ClassRef}
    (h : t.byName? name = some c) : t.named? name = some c := by
  rw [ClassTable.named?, h]

/-- A method that is defined changes no name. -/
theorem define_byName? (w : World) (c : ClassRef) (m : MethodTree) (name : String) :
    (w.define c m).2.classes.byName? name = w.classes.byName? name := by
  have hclasses := w.compile_classes c m w.settings.inlining
  rw [World.define]
  generalize w.compile c m w.settings.inlining = r at hclasses ⊢
  obtain ⟨e | code, w'⟩ := r
  · exact congrArg (ClassTable.byName? · name) hclasses
  · exact congrArg (fun t : ClassTable => (t.install c (.method code)).byName? name) hclasses

/-- The host defines methods one after another. -/
theorem Between.defineAll {c : ClassRef} {name : String} {ms : List MethodTree}
    (h : d.Between w (ms.map (.define name) ++ acts) answers)
    (hname : w.classes.byName? name = some c) (hdefine : w.defineAll c ms = (.ok (), w')) :
    ∃ d', Tamely d d' ∧ d'.Between w' acts (answers ++ List.replicate ms.length .done) := by
  induction ms generalizing d w answers with
  | nil =>
    cases hdefine
    refine ⟨d, .refl d, ?_⟩
    rw [List.length_nil, List.replicate_zero, List.append_nil]
    exact h
  | cons m rest ih =>
    have hname' := define_byName? w c m name
    rw [World.defineAll] at hdefine
    cases hm : w.define c m with
    | mk r w₁ =>
      rw [hm] at hdefine hname'
      cases r with
      | error e => cases hdefine
      | ok code =>
        have hact : ∀ registers, (Act.define name m).perform registers w = (.inl .done, w₁) := by
          intro registers
          rw [Act.perform, named?_of_byName? hname]
          dsimp only
          rw [hm]
        obtain ⟨d₁, hd₁, h₁⟩ := h.perform .done hact
        obtain ⟨d₂, hd₂, h₂⟩ := ih h₁ (hname'.trans hname) hdefine
        refine ⟨d₂, hd₁.trans hd₂, ?_⟩
        rw [List.length_cons, List.replicate_succ, ← List.singleton_append, ← List.append_assoc]
        exact h₂

/-- A world that is to host the workloads comes to do so. -/
theorem Between.founds (h : d.Between w (.defineClass "Bench" "Object" [] ::
      (methods.map (.define "Bench") ++ acts)) []) (hw : w.Founds w') :
    ∃ d', Tamely d d' ∧
      d'.Between w' acts (List.replicate (methods.length + 1) .done) := by
  obtain ⟨d₁, hd₁, h₁⟩ := h.perform .done fun registers => by
    rw [Act.perform, named?_of_byName? hw.object]
  have hname : (w.defineClass "Bench" Core.object []).2.classes.byName? "Bench" = some bench := by
    rw [← hw.next]
    exact ClassTable.byName?_define "Bench" Core.object []
  obtain ⟨d₂, hd₂, h₂⟩ := h₁.defineAll hname hw.defines
  exact ⟨d₂, hd₁.trans hd₂, h₂⟩

/-- A workload is run where it is hosted. -/
theorem Between.ask {inlining : Bool} {limit : Nat} {r : Workload × Int64}
    (h : d.Between w (ask r :: acts) answers) (hw : w.Hosts inlining limit)
    (hroom : nesting inlining r.2.toInt r.1 ≤ limit) :
    ∃ d' w', Tamely d d' ∧ w'.Hosts inlining limit ∧
      d'.Between w' acts (answers ++ [result r]) := by
  obtain ⟨workload, n⟩ := r
  obtain ⟨s, hnew⟩ := hw.newInstance_sound
  let m : Machine := ⟨(w.newInstance bench).2,
    .send workload.selector [(w.newInstance bench).1, .int n], []⟩
  have hm : m.Sound s :=
    ⟨hnew, List.forall_mem_cons.2 ⟨trivial, List.forall_mem_singleton.2 trivial⟩, nofun⟩
  obtain ⟨j, -, hanswers, hholds, htame⟩ := hm.attains hw.mirrored (hw.attains workload n hroom)
  obtain ⟨d', hd, hbetween⟩ := h.send (fun registers => by
    simp only [Dialogue.ask, Act.perform, Recipe.makeAll, Recipe.make, named?_of_byName? hw.bench,
      Number.reduce_toInt]
    rfl) hanswers htame
  have hsound := hm.iterate j
  have hclasses := hsound.world.classes.table.symm.trans hm.world.classes.table
  exact ⟨d', _, hd, hw.of_holds hsound.world hclasses hholds, hbetween⟩

theorem Between.askAll {inlining : Bool} {limit : Nat} {runs : List (Workload × Int64)}
    (h : d.Between w (runs.map Dialogue.ask) answers) (hw : w.Hosts inlining limit)
    (hroom : ∀ r ∈ runs, nesting inlining r.2.toInt r.1 ≤ limit) :
    ∃ d' w', Tamely d d' ∧ d'.Between w' [] (answers ++ runs.map result) := by
  induction runs generalizing d w answers with
  | nil =>
    refine ⟨d, w, .refl d, ?_⟩
    rw [List.map_nil, List.append_nil]
    exact h
  | cons r rest ih =>
    obtain ⟨d₁, w₁, hd₁, hw₁, h₁⟩ := h.ask hw (hroom r List.mem_cons_self)
    obtain ⟨d₂, w₂, hd₂, h₂⟩ := ih h₁ hw₁ fun r hr => hroom r (List.mem_cons_of_mem _ hr)
    refine ⟨d₂, w₂, hd₁.trans hd₂, ?_⟩
    rw [List.map_cons, ← List.singleton_append, ← List.append_assoc]
    exact h₂

/-- A host that tries workloads has a careful dialogue and is told their results, with any settings
    that leave room for the activations that they nest. -/
theorem trial_told (settings : Settings) (sink : Sink) (watched : Bool)
    (runs : List (Workload × Int64))
    (hroom : ∀ r ∈ runs, nesting settings.inlining r.2.toInt r.1 ≤ settings.maxDepth) :
    (start settings .standard sink watched (trial runs)).Careful ∧
      ∃ n, (step^[n] (start settings .standard sink watched (trial runs))).Over ∧
        (step^[n] (start settings .standard sink watched (trial runs))).turns.map Turn.answer =
          List.replicate (methods.length + 1) .done ++ runs.map result := by
  obtain ⟨w, hfounds, hw⟩ := World.boot_founds settings sink watched
  have hstart : (start settings .standard sink watched (trial runs)).Between
      (.boot settings .standard sink watched) (trial runs) [] :=
    ⟨rfl, rfl, rfl, rfl⟩
  obtain ⟨d₁, hd₁, h₁⟩ := hstart.founds hfounds
  obtain ⟨d₂, w₂, hd₂, h₂⟩ := h₁.askAll hw hroom
  obtain ⟨n, hn⟩ := (hd₁.trans hd₂).exists_iterate
  exact ⟨(hd₁.trans hd₂).careful h₂.over.2, n, hn ▸ h₂.over.1, hn ▸ h₂.answers⟩

end Dialogue

end Parley
