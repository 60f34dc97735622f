import Parley.Proofs.Trials

/-!
# Tuning is not seen

A host cannot tell how many entries its machine keeps at a call site, nor whether call sites are
bound to shortcuts: in careful dialogues with two machines that differ in nothing else it is told
the same, one thing after another, however long they are and whether or not they end
(`Dialogue.tuning_unseen`).

Both dialogues are images of one that the reference machine has: each goes through plain forms
which that one goes through as well, and skips others (`Dialogue.Careful.comes`). So what a host
was told by one machine at some time it is told by the other when that has come as far.
-/

namespace Parley

variable {s s' : Stock}

/-! ### Settings -/

/-- The settings with another choice of what call sites remember. -/
def Settings.tuned (σ : Settings) (cacheSize : Nat) (eager : Bool) : Settings :=
  { σ with cacheSize, eager }

/-- A world with such settings. -/
def World.tuned (w : World) (cacheSize : Nat) (eager : Bool) : World :=
  { w with settings := w.settings.tuned cacheSize eager }

namespace World

variable (cacheSize : Nat) (eager : Bool) (w : World)

theorem note_tuned (e : Event) :
    (w.tuned cacheSize eager).note e = (w.note e).tuned cacheSize eager := by
  have hwatched : (w.tuned cacheSize eager).watched = w.watched := rfl
  rw [note, note, hwatched]
  split <;> rfl

theorem compile_tuned (c : ClassRef) (m : MethodTree) (inlining : Bool) :
    (w.tuned cacheSize eager).compile c m inlining =
      ((w.compile c m inlining).1, (w.compile c m inlining).2.tuned cacheSize eager) := by
  unfold compile
  extract_lets l w₁ w₂ l' w₁' w₂'
  have hl : l = l' := rfl
  have h₂ : w₂ = w₂'.tuned cacheSize eager := by
    have hwatched : w₁.watched = w₁'.watched := rfl
    dsimp only [w₂, w₂']
    rw [hwatched]
    split <;> rfl
  rw [hl, h₂]
  split <;> rfl

theorem define_tuned (c : ClassRef) (m : MethodTree) :
    (w.tuned cacheSize eager).define c m =
      ((w.define c m).1, (w.define c m).2.tuned cacheSize eager) := by
  have hinlining : (w.tuned cacheSize eager).settings.inlining = w.settings.inlining := rfl
  rw [define, define, hinlining, compile_tuned]
  generalize w.compile c m w.settings.inlining = r
  obtain ⟨result, w'⟩ := r
  cases result <;> rfl

theorem defineAll_tuned (c : ClassRef) (ms : List MethodTree) :
    (w.tuned cacheSize eager).defineAll c ms =
      ((w.defineAll c ms).1, (w.defineAll c ms).2.tuned cacheSize eager) := by
  induction ms generalizing w with
  | nil => rfl
  | cons m rest ih =>
    rw [defineAll, defineAll, define_tuned]
    generalize w.define c m = r
    obtain ⟨result, w'⟩ := r
    cases result with
    | error e => rfl
    | ok code => exact ih w'

theorem foldl_tuned {α : Type} {f : World → α → World}
    (hf : ∀ w a, f (w.tuned cacheSize eager) a = (f w a).tuned cacheSize eager) (as : List α) :
    as.foldl f (w.tuned cacheSize eager) = (as.foldl f w).tuned cacheSize eager :=
  List.foldl_hom (tuned · cacheSize eager) hf

/-- The library is installed without regard to what call sites will remember. -/
theorem boot_tuned (settings : Settings) (handler : Handler) (sink : Sink) (watched : Bool) :
    boot (settings.tuned cacheSize eager) handler sink watched =
      (boot settings handler sink watched).tuned cacheSize eager := by
  -- Each part of the installation is done before or after the settings are chosen.
  have hbare : bare (settings.tuned cacheSize eager) handler sink watched =
      (bare settings handler sink watched).tuned cacheSize eager := rfl
  have hbind : ∀ w : World, (w.tuned cacheSize eager).bindClasses =
      w.bindClasses.tuned cacheSize eager := fun w =>
    foldl_tuned cacheSize eager w (fun _ _ => rfl) _
  rw [boot, boot, installLibrary, installLibrary, hbare, foldl_tuned]
  case hf =>
    rintro w ⟨c, entries⟩
    exact foldl_tuned cacheSize eager w (fun _ _ => rfl) entries
  rw [defineAll_tuned]
  generalize defineAll _ Core.block Library.loops = r
  obtain ⟨result, w₂⟩ := r
  dsimp only
  rw [hbind]
  generalize w₂.bindClasses = w₃
  let w₄ := (w₃.newInstance Core.system).2.writeGlobal "system" (w₃.newInstance Core.system).1
  exact note_tuned cacheSize eager w₄ _

/-! ### The classes of a new world -/

/-- A method that is defined for one class changes no other one. -/
theorem define_get {c c' : ClassRef} (hne : c' ≠ c) (m : MethodTree) (w : World) :
    (w.define c m).2.classes.get c' = w.classes.get c' := by
  have hclasses := w.compile_classes c m w.settings.inlining
  rw [define]
  generalize w.compile c m w.settings.inlining = r at hclasses ⊢
  obtain ⟨result, w'⟩ := r
  cases result with
  | error e => exact congrArg (ClassTable.get · c') hclasses
  | ok code =>
    show (w'.classes.install c (.method code)).get c' = _
    rw [ClassTable.install, ClassTable.get, ClassTable.get_modify, if_neg fun h => hne h.1.symm]
    exact congrArg (ClassTable.get · c') hclasses

theorem defineAll_get {c c' : ClassRef} (hne : c' ≠ c) (ms : List MethodTree) (w : World) :
    (w.defineAll c ms).2.classes.get c' = w.classes.get c' := by
  induction ms generalizing w with
  | nil => rfl
  | cons m rest ih =>
    have hd := define_get hne m w
    rw [defineAll]
    generalize w.define c m = r at hd ⊢
    obtain ⟨result, w'⟩ := r
    cases result with
    | error e => exact hd
    | ok code => exact (ih w').trans hd

/-- The methods of the library that are compiled are all for blocks. Any other class is as the
    primitives leave it. -/
theorem boot_get (settings : Settings) (handler : Handler) (sink : Sink) (watched : Bool)
    {c : ClassRef} (hc : c ≠ Core.block) :
    (boot settings handler sink watched).classes.get c =
      (Library.primitives.foldl (fun w (c, entries) =>
        entries.foldl (fun w (selector, builtin, shortcut) =>
          w.installPrimitive c selector builtin shortcut) w)
        (bare settings handler sink watched)).classes.get c := by
  unfold boot installLibrary
  extract_lets w₁
  have hloops := defineAll_get hc Library.loops w₁
  generalize w₁.defineAll Core.block Library.loops = r at hloops ⊢
  obtain ⟨result, w₂⟩ := r
  dsimp only at hloops ⊢
  rw [note_classes, ← hloops]
  exact congrArg (ClassTable.get · c) (bindAll_classes _ w₂)

end World

namespace Dialogue

variable {d d' : Dialogue}

/-- Whatever is told in the first dialogue at some time is told in the second one sooner or later,
    in the same order, and if the first one is over, so is the second one then, and nothing else was
    told in it. -/
def EchoedBy (d d' : Dialogue) : Prop :=
  ∀ n, ∃ n', (step^[n] d).turns <+: (step^[n'] d').turns ∧
    ((step^[n] d).Over → (step^[n'] d').Over ∧ (step^[n'] d').turns = (step^[n] d).turns)

/-! ### What the reference machine is told -/

/-- What was told stays told. -/
theorem turns_reference (d : Dialogue) : d.turns <+: (reference d).turns := by
  show d.turns <+: (stepBy Machine.reference d).turns
  rw [stepBy]
  split
  · split
    · exact List.prefix_append _ _
    · exact List.prefix_append _ _
    · exact List.prefix_refl _
  · split
    · exact List.prefix_refl _
    · split
      · exact List.prefix_append _ _
      · exact List.prefix_refl _

theorem turns_iterate (d : Dialogue) {m n : Nat} (h : m ≤ n) :
    (reference^[m] d).turns <+: (reference^[n] d).turns := by
  induction n, h using Nat.le_induction with
  | base => exact List.prefix_refl _
  | succ n _ ih =>
    rw [Function.iterate_succ_apply']
    exact ih.trans (turns_reference _)

/-- Nothing comes of a dialogue that is over. -/
theorem Over.reference_plain (h : d.Over) : reference d.plain = d.plain := by
  have hstep : stepBy Machine.reference d.plain = d.plain := by
    rw [stepBy]
    rw [show d.plain.waits = none from h.1, show d.plain.acts = [] from h.2]
  rw [reference, hstep]
  exact congrArg (Dialogue.mk · _ _ _ _ _) (plain_plain d.machine)

/-! ### Two machines -/

/-- A dialogue that goes on refers to a stock all the time. -/
theorem Sound.iterate (h : d.Sound s) (n : Nat) : ∃ s', (Dialogue.step^[n] d).Sound s' := by
  induction n with
  | zero => exact ⟨s, h⟩
  | succ n ih =>
    obtain ⟨s', hs⟩ := ih
    rw [Function.iterate_succ_apply']
    exact hs.step

/-- The reference machine brings a dialogue to the plain form of all that it comes to, in no fewer
    steps. -/
theorem Careful.comes (hc : d.Careful) (h : d.Sound s) (n : Nat) :
    ∃ k, n ≤ k ∧ reference^[k] d.plain = (step^[n] d).plain := by
  induction n with
  | zero => exact ⟨0, le_rfl, rfl⟩
  | succ n ih =>
    obtain ⟨k, hk, hplain⟩ := ih
    obtain ⟨s', hs⟩ := h.iterate n
    obtain ⟨m, hm⟩ := hs.comes (hc n).1 (hc n).2
    refine ⟨m + 1 + k, by omega, ?_⟩
    rw [Function.iterate_add_apply, hplain, hm, Function.iterate_succ_apply']

/-- A dialogue is echoed by every other one with the same plain form. -/
theorem Careful.echoedBy (hc : d.Careful) (hc' : d'.Careful) (h : d.Sound s) (h' : d'.Sound s')
    (hplain : d.plain = d'.plain) : d.EchoedBy d' := by
  intro n
  obtain ⟨k, -, hk⟩ := hc.comes h n
  -- The other dialogue has come farther after as many steps as the reference machine took.
  obtain ⟨k', hkk', hk'⟩ := hc'.comes h' k
  rw [← hplain] at hk'
  have hturns : (step^[n] d).plain.turns <+: (step^[k] d').plain.turns := by
    rw [← hk, ← hk']
    exact turns_iterate _ hkk'
  refine ⟨k, hturns, fun hover => ?_⟩
  -- Once the first dialogue is over, the reference machine stays where it is.
  have hfixed : (step^[k] d').plain = (step^[n] d).plain := by
    obtain ⟨j, rfl⟩ := Nat.exists_eq_add_of_le hkk'
    rw [← hk', Nat.add_comm, Function.iterate_add_apply, hk]
    exact Function.iterate_fixed hover.reference_plain j
  have hover' : (step^[k] d').plain.Over := hfixed ▸ hover
  have hsame : (step^[k] d').plain.turns = (step^[n] d).plain.turns :=
    congrArg Dialogue.turns hfixed
  exact ⟨hover', hsame⟩

/-! ### New machines -/

/-- A dialogue with a new machine refers to the stock of the library. -/
theorem start_sound (settings : Settings) (handler : Handler) (sink : Sink) (watched : Bool)
    (acts : List Act) : ∃ s, (start settings handler sink watched acts).Sound s := by
  obtain ⟨s, hbare⟩ := World.bare_sound settings handler sink watched
  obtain ⟨s', -, hboot⟩ := (World.boot_changes settings handler sink watched).sound hbare
  exact ⟨s', {
    machine := idle_sound hboot
    registers := fun e he => absurd he List.not_mem_nil
    mirrored := World.boot_mirrored settings handler sink watched }⟩

/-- In two careful dialogues with machines that differ in nothing but what call sites remember, a
    host is told the same. -/
theorem tuning_unseen (settings : Settings) (handler : Handler) (sink : Sink) (watched : Bool)
    (acts : List Act) {cacheSize cacheSize' : Nat} {eager eager' : Bool}
    (hc : (start (settings.tuned cacheSize eager) handler sink watched acts).Careful)
    (hc' : (start (settings.tuned cacheSize' eager') handler sink watched acts).Careful) :
    (start (settings.tuned cacheSize eager) handler sink watched acts).EchoedBy
        (start (settings.tuned cacheSize' eager') handler sink watched acts) ∧
      (start (settings.tuned cacheSize' eager') handler sink watched acts).EchoedBy
        (start (settings.tuned cacheSize eager) handler sink watched acts) := by
  obtain ⟨s, h⟩ := start_sound (settings.tuned cacheSize eager) handler sink watched acts
  obtain ⟨s', h'⟩ := start_sound (settings.tuned cacheSize' eager') handler sink watched acts
  -- Made plain, the two are the same from the start.
  have hplain : (start (settings.tuned cacheSize eager) handler sink watched acts).plain =
      (start (settings.tuned cacheSize' eager') handler sink watched acts).plain := by
    rw [start, start, World.boot_tuned, World.boot_tuned]
    rfl
  exact ⟨hc.echoedBy hc' h h' hplain, hc'.echoedBy hc h' h hplain.symm⟩

/-- A host has a factorial and the lengths of printed numbers, strings and symbols computed, by a
    machine that looks every message up and by one that remembers. The first workload sends the same
    message again and again from one call site, the second one a message to receivers of four
    classes by turns, and the sums and products are bound to shortcuts if they may be. -/
theorem tuning_unseen_trial :
    let acts := trial [(.fact, 5), (.poly, 8)]
    let d := start (Settings.standard.tuned 0 false) .standard .kept false acts
    let d' := start (Settings.standard.tuned 6 true) .standard .kept false acts
    (d.Careful ∧ d'.Careful) ∧ (d.EchoedBy d' ∧ d'.EchoedBy d) ∧
      ∃ n, (step^[n] d).Over ∧ (step^[n] d).turns.map Turn.answer =
        List.replicate 10 .done ++ [.value (.int 120), .value (.int 22)] := by
  have hresults : [(.fact, 5), (.poly, 8)].map result =
      [.value (.int 120), .value (.int 22)] := by
    have hfact : Workload.answer (Int64.toInt 5) .fact = .int 120 := by decide +kernel
    have hpoly : Workload.answer (Int64.toInt 8) .poly = .int 22 := by decide +kernel
    simp only [List.map_cons, List.map_nil, result, hfact, hpoly]
  have hroom : ∀ r ∈ [(Workload.fact, (5 : Int64)), (.poly, 8)], Workload.nesting
      Settings.standard.inlining r.2.toInt r.1 ≤ Settings.standard.maxDepth := by
    decide +kernel
  have htold := fun cacheSize eager => trial_told (Settings.standard.tuned cacheSize eager) .kept
    false [(.fact, 5), (.poly, 8)] hroom
  obtain ⟨hcareful, n, hover, hanswers⟩ := htold 0 false
  refine ⟨⟨hcareful, (htold 6 true).1⟩,
    tuning_unseen .standard .standard .kept false _ hcareful (htold 6 true).1, n, hover, ?_⟩
  rw [hanswers, hresults]
  rfl

end Dialogue

end Parley
