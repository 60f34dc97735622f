import Parley.Host
import Parley.Proofs.Simulation

/-!
# Dialogues

In a *dialogue* a host asks for one thing after another, and is told about each what came of it:
an answer, the output, and the conditions that were reported. It may define classes and methods,
add fields, write globals and send messages (`Dialogue.Act`), and waits for the machine each time.

A dialogue is *careful* (`Dialogue.Careful`) if its machine never shows which instances have caught
up with their classes, or which classes are kept by call sites: a program does not ask an instance
that is behind its class for a field by a number that it has no field for yet, and the class of a
method that sends to super is not gone.

* `Dialogue.Sound.step`: a dialogue refers to a stock as long as it goes on;
* `Dialogue.Act.perform_plain`: whatever a host asks for comes to the same in a plain world;
* `Dialogue.Sound.comes`: the reference machine brings a dialogue to the plain form of what any
  other machine makes of it.
-/

namespace Parley

/-! ### Dialogues -/

namespace Dialogue

/-- Something that a host asks for. -/
inductive Act where
  | defineClass (name super : String) (fields : List String)
  | addField (cls name : String)
  /-- Compiles a method for a class and installs it there. -/
  | define (cls : String) (tree : MethodTree)
  | setGlobal (name : String) (r : Recipe)
  /-- Sends a message to the first of the values, and keeps the answer if a register is named. -/
  | send (selector : Selector) (arguments : List Recipe) (register : Option String)

/-- What a host is answered. -/
inductive Answer where
  | done
  | value (v : Value)
  | failed (f : Fault)
  | rejected (e : CompileError)
  | missing (l : Lack)

/-- What a host is told about an act. -/
structure Turn where
  answer : Answer
  /-- All output so far. -/
  output : String
  /-- The conditions reported so far, each with its receiver, the first first. -/
  conditions : List (Value × Condition)

/-- What comes of an act: an answer at once, or a job for the machine and a register to keep the
    answer in. -/
def Act.perform (act : Act) (registers : Directory Value) (w : World) :
    (Answer ⊕ Job × Option String) × World :=
  match act with
  | .defineClass name super fields =>
    match w.classes.named? super with
    | some c => (.inl .done, (w.defineClass name c fields).2)
    | none => (.inl (.missing (.class super)), w)
  | .addField cls name =>
    match w.classes.named? cls with
    | some c => (.inl .done, (w.addField c name).2)
    | none => (.inl (.missing (.class cls)), w)
  | .define cls tree =>
    match w.classes.named? cls with
    | some c =>
      match w.define c tree with
      | (.ok _, w) => (.inl .done, w)
      | (.error e, w) => (.inl (.rejected e), w)
    | none => (.inl (.missing (.class cls)), w)
  | .setGlobal name r =>
    match r.make registers w with
    | (.ok v, w) => (.inl .done, w.writeGlobal name v)
    | (.error l, w) => (.inl (.missing l), w)
  | .send selector arguments register =>
    match Recipe.makeAll registers arguments w with
    | (.ok [], w) => (.inl (.failed (.noReceiver selector)), w)
    | (.ok vs, w) => (.inr (.send selector vs, register), w)
    | (.error l, w) => (.inl (.missing l), w)

end Dialogue

/-- A dialogue at one moment. -/
structure Dialogue where
  machine : Machine
  /-- Whether the host waits for the machine, and the register that the answer goes to. -/
  waits : Option (Option String)
  registers : Directory Value
  /-- What the host is still going to ask for. -/
  acts : List Dialogue.Act
  conditions : List (Value × Condition)
  /-- What the host was told, the first first. -/
  turns : List Dialogue.Turn

namespace Dialogue

/-- A host is told the answer to what it asked for last. -/
def tell (answer : Answer) (d : Dialogue) : Dialogue :=
  { d with turns := d.turns ++ [⟨answer, d.machine.world.output, d.conditions⟩] }

/-- A machine with nothing to do. -/
def idle (w : World) : Machine :=
  ⟨w, .answer .nil, []⟩

/-- The condition that a machine is about to report. -/
def reported (m : Machine) : List (Value × Condition) :=
  match m.job with
  | .report receiver c => [(receiver, c)]
  | _ => []

/-- The registers after an answer. -/
def keep (register : Option String) (v : Value) (registers : Directory Value) : Directory Value :=
  match register with
  | some name => registers.put name v
  | none => registers

/-- One step of a dialogue, in which the machine may do a step of the kind given. -/
def stepBy (next : Machine → Machine) (d : Dialogue) : Dialogue :=
  match d.waits with
  | some register =>
    match d.machine.outcome with
    | .value v =>
      tell (.value v) { d with
        machine := idle d.machine.world
        waits := none
        registers := keep register v d.registers }
    | .unwound u =>
      tell (.failed (u.fault d.machine.world)) { d with
        machine := idle d.machine.world
        waits := none }
    | .unfinished =>
      { d with machine := next d.machine, conditions := d.conditions ++ reported d.machine }
  | none =>
    match d.acts with
    | [] => d
    | act :: acts =>
      match act.perform d.registers d.machine.world with
      | (.inl answer, w) => tell answer { d with machine := idle w, acts }
      | (.inr (job, register), w) =>
        { d with machine := ⟨w, job, []⟩, waits := some register, acts }

/-- One step of a dialogue. -/
def step : Dialogue → Dialogue :=
  stepBy Machine.step

/-- The start of a dialogue with a new machine. -/
def start (settings : Settings) (handler : Handler) (sink : Sink) (watched : Bool)
    (acts : List Act) : Dialogue where
  machine := idle (.boot settings handler sink watched)
  waits := none
  registers := .empty
  acts
  conditions := []
  turns := []

/-- A dialogue in which everything was told. -/
def Over (d : Dialogue) : Prop :=
  d.waits = none ∧ d.acts = []

/-- A dialogue that shows at no time which instances have caught up with their classes, or which
    classes are kept by call sites. -/
def Careful (d : Dialogue) : Prop :=
  ∀ n, ¬ (step^[n] d).machine.Lags ∧ ¬ (step^[n] d).machine.Orphaned

end Dialogue

variable {s s' : Stock} {w w' : World} {registers : Directory Value}

/-! ### Acts refer to the stock -/

mutual

/-- A recipe makes no class. -/
theorem Recipe.make_classes (registers : Directory Value) (r : Recipe) (w : World) :
    (r.make registers w).2.classes = w.classes := by
  match r with
  | .nil | .bool _ | .int _ | .big _ | .double _ | .symbol _ =>
    rw [Recipe.make]
  | .string _ =>
    rw [Recipe.make]
    rfl
  | .array items =>
    have hitems := Recipe.makeAll_classes registers items w
    rw [Recipe.make]
    generalize Recipe.makeAll registers items w = made at hitems ⊢
    obtain ⟨result, w'⟩ := made
    cases result with
    | error l => exact hitems
    | ok vs => exact hitems
  | .classNamed _ | .register _ | .global _ | .instanceOf _ =>
    rw [Recipe.make]
    split <;> rfl

theorem Recipe.makeAll_classes (registers : Directory Value) (rs : List Recipe) (w : World) :
    (Recipe.makeAll registers rs w).2.classes = w.classes := by
  match rs with
  | [] =>
    rw [Recipe.makeAll]
  | r :: rest =>
    have hfirst := Recipe.make_classes registers r w
    rw [Recipe.makeAll]
    generalize r.make registers w = made at hfirst ⊢
    obtain ⟨result, w'⟩ := made
    cases result with
    | error l => exact hfirst
    | ok v =>
      have hrest := Recipe.makeAll_classes registers rest w'
      dsimp only
      generalize Recipe.makeAll registers rest w' = made' at hrest ⊢
      obtain ⟨result', w''⟩ := made'
      cases result' with
      | error l => exact hrest.trans hfirst
      | ok vs => exact hrest.trans hfirst

end

/-- Registers with values of a stock. -/
def Stock.Holds (s : Stock) (registers : Directory Value) : Prop :=
  ∀ e ∈ registers.entries, e.2.Within s.classes

theorem Stock.Holds.mono (h : s.Holds registers) (hs : s.Le s') : s'.Holds registers :=
  fun e he => (h e he).mono hs

theorem Stock.Holds.keep (h : s.Holds registers) {v : Value} (hv : v.Within s.classes)
    (register : Option String) : s.Holds (Dialogue.keep register v registers) := by
  cases register with
  | none => exact h
  | some name =>
    intro e he
    rcases Directory.mem_putIn he with he | he
    · exact h e he
    · exact he ▸ hv

namespace Dialogue

/-- A dialogue whose machine refers to a stock, with values of the stock in its registers, and with
    a table in which shortcuts mirror their primitives. -/
structure Sound (d : Dialogue) (s : Stock) : Prop where
  machine : d.machine.Sound s
  registers : s.Holds d.registers
  mirrored : d.machine.world.classes.Mirrored

/-- What an act leaves: a world of a larger stock, and a job of it. -/
structure Act.Upholds (s : Stock) (r : (Answer ⊕ Job × Option String) × World) : Prop where
  stock : ∃ s', s.Le s' ∧ r.2.Sound s' ∧ ∀ job register, r.1 = .inr (job, register) → job.Sound s'
  mirrored : r.2.classes.Mirrored

theorem Act.Upholds.answer (h : w'.Sound s') (hs : s.Le s') (ht : w'.classes.Mirrored)
    (answer : Answer) : Act.Upholds s (.inl answer, w') :=
  ⟨⟨s', hs, h, by rintro job register ⟨⟩⟩, ht⟩

/-- Whatever a host asks for is referred to by a stock again. -/
theorem Act.perform_upheld (h : w.Sound s) (ht : w.classes.Mirrored) (hr : s.Holds registers)
    (act : Act) : Act.Upholds s (act.perform registers w) := by
  -- A class that has a name is one of the stock.
  have hnamed : ∀ {name c}, w.classes.named? name = some c → c < w.classes.next := fun hc =>
    h.next_eq ▸ h.classes.named?_lt hc
  cases act with
  | defineClass name super fields =>
    rw [perform]
    split
    · rename_i c hc
      obtain ⟨s', hs, h'⟩ := (World.Change.defineClass name fields (hnamed hc)).sound h
      exact .answer h' hs (ht.of_keeps (ClassTable.define_keeps _ _ _ _)) _
    · exact .answer h (.refl s) ht _
  | addField cls name =>
    rw [perform]
    split
    · rename_i c hc
      obtain ⟨s', hs, h'⟩ := (World.Change.addField c name).sound h
      refine .answer h' hs ?_ _
      rw [World.addField, World.note_classes]
      exact ht.of_keeps (ClassTable.addField_keeps _ _ _)
    · exact .answer h (.refl s) ht _
  | define cls tree =>
    rw [perform]
    split
    · rename_i c hc
      obtain ⟨s', hs, h'⟩ := (World.define_changes (hnamed hc) tree).1.sound h
      have ht' := World.define_mirrored ht c tree
      generalize w.define c tree = r at h' ht' ⊢
      obtain ⟨result, w'⟩ := r
      cases result with
      | ok code => exact .answer h' hs ht' _
      | error e => exact .answer h' hs ht' _
    · exact .answer h (.refl s) ht _
  | setGlobal name r =>
    rw [perform]
    have hm := r.make_upheld hr h
    have ht' := Recipe.make_classes registers r w
    generalize r.make registers w = made at hm ht' ⊢
    obtain ⟨result, w'⟩ := made
    dsimp only at hm ht'
    cases result with
    | ok v => exact .answer (hm.1.writeGlobal name (hm.2 v rfl)) (.refl s) (ht' ▸ ht) _
    | error l => exact .answer hm.1 (.refl s) (ht' ▸ ht) _
  | send selector arguments register =>
    rw [perform]
    have hm := Recipe.makeAll_upheld hr arguments h
    have ht' := Recipe.makeAll_classes registers arguments w
    generalize Recipe.makeAll registers arguments w = made at hm ht' ⊢
    obtain ⟨result, w'⟩ := made
    dsimp only at hm ht'
    cases result with
    | error l => exact .answer hm.1 (.refl s) (ht' ▸ ht) _
    | ok vs =>
      cases vs with
      | nil => exact .answer hm.1 (.refl s) (ht' ▸ ht) _
      | cons v vs =>
        refine ⟨⟨s, .refl s, hm.1, ?_⟩, ht' ▸ ht⟩
        rintro job register ⟨⟩
        exact hm.2 _ rfl

theorem job_of_outcome {m : Machine} {v : Value} (h : m.outcome = .value v) :
    m.job = .answer v := by
  rw [Machine.outcome] at h
  split at h
  · rename_i hjob _
    cases h
    exact hjob
  · cases h
  · cases h

theorem idle_sound (h : w.Sound s) : (idle w).Sound s :=
  ⟨h, trivial, by rintro p ⟨⟩⟩

/-- Whatever a dialogue comes to refers to a stock again. -/
theorem Sound.step {d : Dialogue} (h : d.Sound s) : ∃ s', d.step.Sound s' := by
  have hw : d.machine.world.Sound s := h.machine.world
  unfold Dialogue.step stepBy
  split
  · rename_i register _
    split
    · rename_i v hv
      have hwithin : v.Within s.classes := by
        have hjob := h.machine.job
        rw [job_of_outcome hv] at hjob
        exact hjob
      exact ⟨s, idle_sound hw, h.registers.keep hwithin register, h.mirrored⟩
    · exact ⟨s, idle_sound hw, h.registers, h.mirrored⟩
    · have hstep := Machine.step_sound h.machine
      -- A run makes no classes and installs nothing.
      have hclasses : d.machine.step.world.classes = d.machine.world.classes :=
        hstep.world.classes.table.symm.trans hw.classes.table
      exact ⟨s, hstep, h.registers, hclasses ▸ h.mirrored⟩
  · split
    · exact ⟨s, h⟩
    · rename_i act acts _
      obtain ⟨⟨s', hs, hw', hjob⟩, ht'⟩ := act.perform_upheld hw h.mirrored h.registers
      have hr' := h.registers.mono hs
      generalize act.perform d.registers d.machine.world = r at hw' hjob ht' ⊢
      obtain ⟨answer | ⟨job, register⟩, w'⟩ := r
      · exact ⟨s', idle_sound hw', hr', ht'⟩
      · exact ⟨s', ⟨hw', hjob job register rfl, by rintro p ⟨⟩⟩, hr', ht'⟩

end Dialogue

/-! ### Acts in plain worlds -/

namespace World

/-- The classes may change before or after a world is made plain. -/
theorem plain_setClasses (h : w.Sound s) {t : ClassTable} (ht : t.Sound s') (hs : s.Le s') :
    World.plain { w.plain with classes := t } = World.plain { w with classes := t } := by
  -- Instances that have caught up with the old table catch up with the new one all the same.
  have hheap : (w.heap.current w.classes).current t = w.heap.current t :=
    h.heap.current_later h.classes ht hs
  show { World.plain { w with classes := t } with
    heap := (w.heap.current w.classes).current t } = World.plain { w with classes := t }
  rw [hheap]
  rfl

theorem defineClass_plain (h : w.Sound s) (name : String) {super : ClassRef}
    (hsuper : super < w.classes.next) (fields : List String) :
    (w.plain.defineClass name super fields).2.plain =
      (w.defineClass name super fields).2.plain := by
  obtain ⟨s', hs, h'⟩ := (Change.defineClass name fields hsuper).sound h
  have hclasses := plain_setClasses h h'.classes hs
  exact congrArg (writeGlobal · name (.classRef w.classes.next)) hclasses

theorem addField_plain (h : w.Sound s) (c : ClassRef) (name : String) :
    (w.plain.addField c name).2.plain = (w.addField c name).2.plain := by
  obtain ⟨s', hs, h'⟩ := (Change.addField (w := w) c name).sound h
  have ht : (w.classes.addField c name).Sound s' := by
    have hc := h'.classes
    rw [addField, note_classes] at hc
    exact hc
  rw [addField, addField, plain_note, plain_note]
  exact plain_setClasses h ht hs

theorem compile_plain (w : World) (c : ClassRef) (m : MethodTree) (inlining : Bool) :
    w.plain.compile c m inlining = plainly (w.compile c m inlining) := by
  have hw : ∀ events, World.plain { w with events } = w.plain := fun _ => rfl
  unfold compile
  extract_lets l₁ w₁ w₂ l w₃ w₄
  -- What is compiled depends on the class and on the numbers that are free.
  have hl : l₁ = l := rfl
  have h₄ : w₂ = w₄.plain := by
    dsimp only [w₄]
    split <;> rfl
  rw [hl, h₄]
  split <;> rfl

theorem define_plain (h : w.Sound s) {c : ClassRef} (hc : c < w.classes.next) (m : MethodTree) :
    plainly (w.plain.define c m) = plainly (w.define c m) := by
  have hinlining : w.plain.settings.inlining = w.settings.inlining := rfl
  rw [define, define, hinlining, compile_plain]
  obtain ⟨s', hs, h'⟩ := (Change.compile m w.settings.inlining hc).sound h
  cases hr : w.compile c m w.settings.inlining with
  | mk result w' =>
    rw [hr] at h'
    cases result with
    | error e => exact Prod.ext rfl w'.plain_plain
    | ok code =>
      have hinstall : w'.Change (w'.install c (.method code)) := .install c (compile_wrote hr)
      obtain ⟨s'', hs', h''⟩ := hinstall.sound h'
      exact Prod.ext rfl (plain_setClasses h' h''.classes hs')

end World

namespace Dialogue

/-- An act comes to the same in a plain world. -/
theorem Act.perform_plain (h : w.Sound s) (act : Act) (registers : Directory Value) :
    plainly (act.perform registers w.plain) = plainly (act.perform registers w) := by
  have hnamed : ∀ {name c}, w.classes.named? name = some c → c < w.classes.next := fun hc =>
    h.next_eq ▸ h.classes.named?_lt hc
  cases act with
  | defineClass name super fields =>
    rw [perform, perform, World.plain_classes]
    split
    · rename_i c hc
      exact Prod.ext rfl (World.defineClass_plain h name (hnamed hc) fields)
    · exact Prod.ext rfl w.plain_plain
  | addField cls name =>
    rw [perform, perform, World.plain_classes]
    split
    · rename_i c hc
      exact Prod.ext rfl (World.addField_plain h c name)
    · exact Prod.ext rfl w.plain_plain
  | define cls tree =>
    rw [perform, perform, World.plain_classes]
    split
    · rename_i c hc
      have hd := World.define_plain h (hnamed hc) tree
      generalize w.plain.define c tree = r at hd ⊢
      generalize w.define c tree = r' at hd ⊢
      obtain ⟨result, w₁⟩ := r
      obtain ⟨result', w₂⟩ := r'
      obtain ⟨rfl, hw⟩ := Prod.mk.inj hd
      cases result with
      | ok code => exact Prod.ext rfl hw
      | error e => exact Prod.ext rfl hw
    · exact Prod.ext rfl w.plain_plain
  | setGlobal name r =>
    rw [perform, perform, r.make_plain]
    generalize r.make registers w = made
    obtain ⟨result, w'⟩ := made
    cases result with
    | ok v => exact Prod.ext rfl (w'.writeGlobal name v).plain_plain
    | error l => exact Prod.ext rfl w'.plain_plain
  | send selector arguments register =>
    rw [perform, perform, Recipe.makeAll_plain]
    generalize Recipe.makeAll registers arguments w = made
    obtain ⟨result, w'⟩ := made
    cases result with
    | error l => exact Prod.ext rfl w'.plain_plain
    | ok vs =>
      cases vs with
      | nil => exact Prod.ext rfl w'.plain_plain
      | cons v vs => exact Prod.ext rfl w'.plain_plain

/-! ### Dialogues with the reference machine -/

/-- A dialogue with a plain machine. -/
def plain (d : Dialogue) : Dialogue :=
  { d with machine := d.machine.plain }

/-- One step of a dialogue with the reference machine. -/
def reference (d : Dialogue) : Dialogue :=
  (stepBy Machine.reference d).plain

theorem plain_plain (m : Machine) : m.plain.plain = m.plain :=
  congrArg (Machine.mk · m.job m.pending) m.world.plain_plain

theorem reference_plain (m : Machine) : m.reference.plain = m.reference := by
  obtain ⟨w, job, k⟩ := m
  cases job with
  | execute a =>
    rw [Machine.reference]
    split
    · exact congrArg (Machine.mk · _ _) w.plain_plain
    · exact congrArg (Machine.mk · _ _) w.plain_plain
    · exact plain_plain _
  | _ => exact plain_plain _

/-- While the host waits, it only takes note of what is reported. -/
theorem stepBy_of_unfinished {d : Dialogue} {register : Option String}
    (hwaits : d.waits = some register) (hunfinished : d.machine.outcome = .unfinished)
    (next : Machine → Machine) : stepBy next d =
      { d with machine := next d.machine, conditions := d.conditions ++ reported d.machine } := by
  rw [stepBy]
  rw [hwaits]
  dsimp only
  rw [hunfinished]

/-- While a machine looks up a message, the host waits and sees nothing. -/
theorem reference_of_comes {register : Option String} {m m' : Machine} (hm : m.Comes m')
    {d : Dialogue} (hwaits : d.waits = some register) (hd : d.machine = m)
    (hunfinished : m.outcome = .unfinished) : ∃ n, reference^[n + 1] d =
      plain { d with machine := m', conditions := d.conditions ++ reported m } := by
  induction hm generalizing d with
  | single m =>
    subst hd
    exact ⟨0, congrArg plain (stepBy_of_unfinished hwaits hunfinished _)⟩
  | @further m m' hcalls _ ih =>
    subst hd
    -- A machine that looks up a message reports nothing and has no outcome.
    have hquiet : d.machine.reference.outcome = .unfinished ∧ reported d.machine.reference =
      [] := by
      rcases hcalls with ⟨selector, arguments, hjob⟩ | ⟨i, arguments, hjob⟩
      · simp only [Machine.outcome, reported, hjob, and_self]
      · simp only [Machine.outcome, reported, hjob, and_self]
    have hfirst : reference d = { d with
        machine := d.machine.reference
        conditions := d.conditions ++ reported d.machine } := by
      rw [reference, stepBy_of_unfinished hwaits hunfinished, plain, reference_plain]
    obtain ⟨n, hn⟩ := ih (d := reference d) (by rw [hfirst]; exact hwaits) (by rw [hfirst]) hquiet.1
    refine ⟨n + 1, ?_⟩
    rw [Function.iterate_succ_apply, hn, hfirst, hquiet.2, List.append_nil]

theorem tell_plain (answer : Answer) {d d' : Dialogue} (h : d.plain = d'.plain) :
    (tell answer d).plain = (tell answer d').plain := by
  have htell : ∀ d, (tell answer d).plain = tell answer d.plain := fun _ => rfl
  rw [htell, htell, h]

theorem idle_plain {w w' : World} (h : w.plain = w'.plain) : (idle w).plain = (idle w').plain :=
  congrArg (Machine.mk · (.answer .nil) []) h

/-- From the plain form of a dialogue, the reference machine brings it to the plain form of what it
    comes to. -/
theorem Sound.comes {d : Dialogue} (h : d.Sound s) (hlags : ¬ d.machine.Lags)
    (horphaned : ¬ d.machine.Orphaned) : ∃ n, reference^[n + 1] d.plain = d.step.plain := by
  have hw : d.machine.world.Sound s := h.machine.world
  have hworld : d.plain.machine.world = d.machine.world.plain := rfl
  cases hwaits : d.waits with
  | some register =>
    have hwaits' : d.plain.waits = some register := hwaits
    cases ho : d.machine.outcome with
    | value v =>
      have ho' : d.plain.machine.outcome = .value v := ho
      refine ⟨0, ?_⟩
      show (stepBy _ d.plain).plain = (stepBy _ d).plain
      rw [stepBy, stepBy, hwaits, hwaits', ho, ho']
      exact tell_plain _ (congrArg (Dialogue.mk · _ _ _ _ _) (idle_plain (World.plain_plain _)))
    | unwound u =>
      have ho' : d.plain.machine.outcome = .unwound u := ho
      refine ⟨0, ?_⟩
      show (stepBy _ d.plain).plain = (stepBy _ d).plain
      rw [stepBy, stepBy, hwaits, hwaits', ho, ho']
      dsimp only
      rw [hworld, Machine.fault_plain]
      exact tell_plain _ (congrArg (Dialogue.mk · _ _ _ _ _) (idle_plain (World.plain_plain _)))
    | unfinished =>
      -- The one case in which the reference machine may take more than one step.
      obtain ⟨n, hn⟩ := reference_of_comes (h.machine.comes h.mirrored hlags horphaned)
        (d := d.plain) hwaits rfl ho
      refine ⟨n, hn.trans ?_⟩
      rw [Dialogue.step, stepBy_of_unfinished hwaits ho]
      exact congrArg (Dialogue.mk · _ _ _ _ _) (plain_plain d.machine.step)
  | none =>
    have hwaits' : d.plain.waits = none := hwaits
    have hregisters : d.plain.registers = d.registers := rfl
    have hacts : d.plain.acts = d.acts := rfl
    refine ⟨0, ?_⟩
    show (stepBy _ d.plain).plain = (stepBy _ d).plain
    rw [stepBy, stepBy, hwaits, hwaits', hworld, hregisters, hacts]
    dsimp only
    split
    · exact congrArg (Dialogue.mk · _ _ _ _ _) (plain_plain d.machine)
    · rename_i act acts _
      have hp := act.perform_plain hw d.registers
      generalize act.perform d.registers d.machine.world.plain = r at hp ⊢
      generalize act.perform d.registers d.machine.world = r' at hp ⊢
      obtain ⟨result, w⟩ := r
      obtain ⟨result', w'⟩ := r'
      obtain ⟨rfl, hww⟩ := Prod.mk.inj hp
      rcases result with answer | ⟨job, register⟩
      · exact tell_plain _ (congrArg (Dialogue.mk · _ _ _ _ _) (idle_plain hww))
      · exact congrArg (fun w => Dialogue.mk ⟨w, job, []⟩ _ _ _ _ _) hww

end Dialogue

end Parley
