import Parley.Proofs.Cells
import Parley.Proofs.Specialization

/-!
# Globals over whole histories

Everything that happens to machines on one world writes certain things under certain names, most of
it nothing: a step of a machine, what a host does between steps, another machine's turn
(`Machine.Binds`, `Ensemble.Next.binds`). A history is a live ensemble together with all that was
written on the way to it, the last first (`Ensemble.Recorded`).

Whatever an instruction, a primitive or a host reads under a name is then what the list has first
under the name, and nothing if the name is not in it (`Ensemble.remembers`). That an instruction
keeps the cell it found when it was first executed, with something in it or not, makes no
difference, since the cell of a name is the only one and stays so.
-/

namespace Parley

variable {w w' : World} {m m' : Machine}

/-! ### What is written -/

namespace Machine

/-- What happens to a machine, with what it writes. -/
inductive Binds (m : Machine) : Bindings → Machine → Prop
  | step : Binds m m.bindings m.step
  | writeGlobal (name : String) (v : Value) :
      Binds m [(name, v)] { m with world := m.world.writeGlobal name v }
  | defineClass (name : String) (super : ClassRef) (fields : List String) :
      Binds m [(name, .classRef (m.world.defineClass name super fields).1)]
        { m with world := (m.world.defineClass name super fields).2 }
  /-- All else leaves the table of globals as it is. -/
  | other {m' : Machine} : m'.world.globals = m.world.globals → Binds m [] m'

variable {bs : Bindings}

theorem Binds.becomes (h : m.Binds bs m') : m.world.globals.Becomes bs m'.world.globals := by
  cases h with
  | step => exact step_becomes m
  | writeGlobal name v => exact .writes [(name, v)]
  | defineClass name super fields =>
    exact .writes [(name, .classRef (m.world.defineClass name super fields).1)]
  | other h => exact .same h

end Machine

/-- A host writes by `writeGlobal` and by `defineClass` only. -/
theorem World.Change.binds (hc : w.Change w') (job : Job) (k : List Pending) :
    ∃ bs, Machine.Binds ⟨w, job, k⟩ bs ⟨w', job, k⟩ := by
  cases hc with
  | defineClass name fields _ => exact ⟨_, .defineClass name _ fields⟩
  | writeGlobal name _ => exact ⟨_, .writeGlobal name _⟩
  | addField c name => exact ⟨_, .other (note_globals _ _)⟩
  | compile m inlining _ => exact ⟨_, .other (w.compile_globals _ m inlining)⟩
  | turn _ _ hglobals _ _ _ _ => exact ⟨_, .other hglobals⟩
  | _ => exact ⟨_, .other rfl⟩

theorem World.Bids.globals {r : Job × World} (hr : w.Bids r) : r.2.globals = w.globals := by
  cases hr with
  | request _ => rfl
  | dispatch _ _ => exact Chain.dispatch_globals _ _ _

theorem Machine.Proceeds.binds (hp : m.Proceeds m') : ∃ bs, m.Binds bs m' := by
  cases hp with
  | step => exact ⟨_, .step⟩
  | change hc _ _ => exact hc.binds m.job m.pending
  | request _ hr | consult _ hr _ => exact ⟨_, .other hr.globals⟩
  | reply | refuse => exact ⟨_, .other rfl⟩

namespace Ensemble

variable {e e' : Ensemble} {log bs : Bindings}

/-- Whatever becomes of an ensemble, something is known to be written, or nothing. -/
theorem Next.binds (hn : e.Next e') : ∃ bs, e.machine.Binds bs e'.machine := by
  cases hn with
  | proceeds hp => exact hp.binds
  | yields _ _ _ _ hglobals _ _ _ _ _ => exact ⟨[], .other hglobals⟩

/-! ### Histories -/

/-- What the library writes, the last first: its classes under their names, and the system. -/
def installed (w : World) : Bindings :=
  ("system", .object 0) :: (w.classes.registry.entries.map fun (name, c) =>
    (name, .classRef c)).reverse

/-- The ensembles that come about from one machine, each with all that was written, the last
    first. -/
inductive Recorded : Ensemble → Bindings → Prop
  | bare (settings : Settings) (handler : Handler) (sink : Sink) (watched : Bool) :
      Recorded (start (.bare settings handler sink watched)) []
  | boot (settings : Settings) (handler : Handler) (sink : Sink) (watched : Bool) :
      Recorded (start (.boot settings handler sink watched))
        (installed (.boot settings handler sink watched))
  | next {e e' : Ensemble} {log bs : Bindings} : Recorded e log → e.Next e' →
      e.machine.Binds bs e'.machine → Recorded e' (bs.reverse ++ log)

theorem Recorded.live (h : Recorded e log) : Live (fun _ => True) e := by
  induction h with
  | bare settings handler sink watched => exact .start (.bare settings handler sink watched) trivial
  | boot settings handler sink watched => exact .start (.boot settings handler sink watched) trivial
  | next _ hn _ ih => exact ih.next hn trivial

/-- Every live ensemble has come about by some history. -/
theorem Live.recorded {p : World → Prop} (h : Live p e) : ∃ log, Recorded e log := by
  induction h with
  | start hw _ =>
    cases hw with
    | bare settings handler sink watched => exact ⟨_, .bare settings handler sink watched⟩
    | boot settings handler sink watched => exact ⟨_, .boot settings handler sink watched⟩
  | next _ hn _ ih =>
    obtain ⟨log, hlog⟩ := ih
    obtain ⟨bs, hbs⟩ := hn.binds
    exact ⟨_, hlog.next hn hbs⟩

end Ensemble

/-! ### The library -/

namespace World

/-- To define methods touches neither the globals nor the heap. -/
theorem defineAll_keeps (w : World) (c : ClassRef) (ms : List MethodTree) :
    (w.defineAll c ms).2.globals = w.globals ∧ (w.defineAll c ms).2.heap = w.heap := by
  induction ms generalizing w with
  | nil => exact ⟨rfl, rfl⟩
  | cons m rest ih =>
    have hglobals := w.compile_globals c m w.settings.inlining
    have hheap := w.compile_heap c m w.settings.inlining
    rw [defineAll, define]
    generalize w.compile c m w.settings.inlining = r at hglobals hheap ⊢
    obtain ⟨compiled, w'⟩ := r
    cases compiled with
    | error e => exact ⟨hglobals, hheap⟩
    | ok code =>
      obtain ⟨hg, hh⟩ := ih (w'.install c (.method code))
      exact ⟨hg.trans hglobals, hh.trans hheap⟩

theorem bindClasses_eq (w : World) : w.bindClasses = { w with
    globals := w.globals.writeAll (w.classes.registry.entries.map fun (name, c) =>
      (name, .classRef c)) } := by
  have hfold : ∀ (entries : List (String × ClassRef)) (w : World),
      entries.foldl (fun w (name, c) => w.writeGlobal name (.classRef c)) w = { w with
        globals := w.globals.writeAll (entries.map fun (name, c) => (name, .classRef c)) } := by
    intro entries
    induction entries with
    | nil => exact fun w => rfl
    | cons entry rest ih => exact fun w => ih _
  exact hfold _ w

/-- What the library writes is what is listed. -/
theorem installLibrary_globals (w : World) (hh : w.heap.instances = #[]) :
    w.installLibrary.globals =
      w.globals.writeAll (Ensemble.installed w.installLibrary).reverse := by
  unfold installLibrary Ensemble.installed
  extract_lets w₁
  have h₁ : w₁.globals = w.globals ∧ w₁.heap = w.heap := by
    refine List.foldlRecOn (motive := fun w' : World =>
      w'.globals = w.globals ∧ w'.heap = w.heap) Library.primitives _ ⟨rfl, rfl⟩
      fun w' h e _ => ?_
    exact List.foldlRecOn (motive := fun w' : World =>
      w'.globals = w.globals ∧ w'.heap = w.heap) e.2 _ h fun w' h p _ => h
  have h₂ := w₁.defineAll_keeps Core.block Library.loops
  generalize w₁.defineAll Core.block Library.loops = r at h₂ ⊢
  obtain ⟨_, w₂⟩ := r
  obtain ⟨hglobals, hheap⟩ : w₂.globals = w.globals ∧ w₂.heap = w.heap :=
    ⟨h₂.1.trans h₁.1, h₂.2.trans h₁.2⟩
  dsimp only
  rw [bindClasses_eq]
  simp only [note_globals, note_classes, newInstance, Heap.newInstance, writeGlobal]
  rw [hglobals, hheap, hh, List.reverse_cons, List.reverse_reverse, Globals.writeAll,
    Globals.writeAll, List.foldl_append]
  rfl

end World

/-! ### What is read -/

namespace Ensemble

variable {e e' : Ensemble} {log bs : Bindings}

/-- A table without two cells of the same name, in which is under every name what the log has. -/
structure Logged (g : Globals) (log : Bindings) : Prop where
  distinct : g.Distinct
  read : ∀ name, g.read? name = log.lookup name

theorem Logged.becomes {g g' : Globals} (h : Logged g log) (hb : g.Becomes bs g') :
    Logged g' (bs.reverse ++ log) where
  distinct := hb.distinct h.distinct
  read name := by rw [hb.read?, h.read, List.lookup_append]

theorem logged_empty : Logged #[] [] where
  distinct := nofun
  read name := by
    rw [Globals.read?, Globals.find?, Array.findIdx?_empty]
    rfl

/-- The table of an ensemble is as the log says. -/
theorem Recorded.logged (h : Recorded e log) : Logged e.machine.world.globals log := by
  induction h with
  | bare settings handler sink watched => exact logged_empty
  | boot settings handler sink watched =>
    have hglobals := World.installLibrary_globals (.bare settings handler sink watched) rfl
    have h := logged_empty.becomes
      (.writes (installed (.boot settings handler sink watched)).reverse)
    rw [List.reverse_reverse, List.append_nil] at h
    exact hglobals ▸ h
  | next _ _ hb ih => exact ih.becomes hb.becomes

/-- The cell of a name is its cell in every later ensemble. -/
theorem Later.find? {p : World → Prop} (hl : Later p e e') {name : String} {c : CellRef}
    (hc : e.machine.world.globals.find? name = some c) :
    e'.machine.world.globals.find? name = some c := by
  induction hl with
  | refl => exact hc
  | tail _ hn ih =>
    obtain ⟨bs, hbs⟩ := hn.1.binds
    exact hbs.becomes.find? ih

end Ensemble

/-- What comes of reading a global: a value that is under the name, or a report. -/
def Job.reading (receiver : Value) (name : String) : Option Value → Job
  | some v => .answer v
  | none => .report receiver (.unknownGlobal name)

theorem readCell_eq {name : String} {c : CellRef} (receiver : Value)
    (hc : w.globals.find? name = some c) :
    readCell c receiver w = .reading receiver name (w.globals.read? name) := by
  rw [readCell, Globals.read?, hc, Option.bind_some, (Globals.nameOf_of_find? hc).2]
  cases w.globals.get? c <;> rfl

/-- An instruction that reads a global comes to what is under the name, whatever it is specialized
    to. -/
theorem readGlobal_eq {s : Stock} {code : Code} {ip : Nat} {name : String} (h : w.Sound s)
    (hcode : .block code ∈ s.written) (hread : code.reads? ip = some name) (receiver : Value) :
    (readGlobal (code.id, ip) (some (.global name)) receiver w).1 =
      .reading receiver name (w.globals.read? name) := by
  cases hsite : w.sites[(code.id, ip)]? with
  | none =>
    have hfind := w.globals.find?_cell_self name
    have hvalue := w.globals.read?_cell name name
    unfold readGlobal
    rw [hsite]
    dsimp only
    generalize w.globals.cell name = r at hfind hvalue ⊢
    obtain ⟨c, g⟩ := r
    dsimp only at hfind hvalue ⊢
    generalize hw' : World.noteQuickened _ _ _ = w'
    obtain rfl : w'.globals = g := hw' ▸ World.noteQuickened_globals _ _ _
    rw [← hvalue]
    exact readCell_eq receiver hfind
  | some site =>
    have hsound := h.site hcode hsite
    have hsends := Code.sends?_of_reads? hread
    cases site with
    | global c =>
      unfold readGlobal
      rw [hsite]
      exact readCell_eq receiver (h.cells (code.id, ip) c hsite code name hcode rfl hread)
    -- No instruction both reads a global and sends a message.
    | chain c => exact absurd (hsends.symm.trans hsound.1) (by simp)
    | super target epoch =>
      obtain ⟨selector, holder, hs, -⟩ := hsound
      exact absurd (hsends.symm.trans hs) (by simp)
    | eager op cls epoch arity =>
      obtain ⟨selector, hs, -⟩ := hsound
      exact absurd (hsends.symm.trans hs) (by simp)

theorem Code.of_reads? {code : Code} {ip : Nat} {name : String} (h : code.reads? ip = some name) :
    code.program.tape.opcode? ip = some .pushGlobal ∧
      code.program.literal? (code.program.tape.byteAt (ip + 1)) = some (.global name) := by
  rw [reads?] at h
  split at h
  · rename_i hop
    split at h
    · rename_i hl
      cases h
      exact ⟨hop, hl⟩
    · cases h
  · cases h

namespace Machine

variable {s : Stock} {a : Activation} {name : String}

/-- What becomes of a machine that is to read a global. -/
theorem step_pushGlobal (h : m.Sound s) (hjob : m.job = .execute a)
    (hread : a.code.reads? a.ip = some name) :
    m.step.pending = .sender { a with ip := a.ip + 2 } :: m.pending ∧
      ∃ receiver, m.step.job = .reading receiver name (m.world.globals.read? name) := by
  obtain ⟨hop, hliteral⟩ := Code.of_reads? hread
  have hcode := wrote_of_execute h hjob hop
  obtain ⟨w, job, k⟩ := m
  obtain rfl : job = .execute a := hjob
  have hstep : step ⟨w, .execute a, k⟩ = instruction a .pushGlobal w k :=
    step_execute hop w k
  rw [hstep, instruction, hliteral]
  exact ⟨rfl, _, readGlobal_eq h.world hcode hread _⟩

/-- What becomes of a machine that is to call a primitive. -/
theorem step_primitive {p : Primitive} {arguments : List Value}
    (hjob : m.job = .invoke (.primitive p) arguments)
    (harity : arguments.length = p.selector.arity + 1) :
    m.step.job = (p.builtin.apply arguments m.world).1 := by
  obtain ⟨w, job, k⟩ := m
  obtain rfl : job = .invoke (.primitive p) arguments := hjob
  rw [step, invoke, if_pos harity]
  rfl

end Machine

namespace Ensemble

variable {e : Ensemble} {log : Bindings}

/-- What is read of globals when the log says what was written, the last first. -/
structure Remembers (e : Ensemble) (log : Bindings) : Prop where
  /-- No two cells have the same name. -/
  distinct : e.machine.world.globals.Distinct
  /-- A name that has a cell has it for good. -/
  lasts : ∀ e', Later (fun _ => True) e e' → ∀ name c,
    e.machine.world.globals.find? name = some c → e'.machine.world.globals.find? name = some c
  /-- A host reads what was written last. -/
  read : ∀ name, e.machine.world.globals.read? name = log.lookup name
  /-- So does the primitive `global:`. -/
  «global» : ∀ p arguments name, e.machine.job = .invoke (.primitive p) arguments →
    p.builtin = .global → arguments.length = p.selector.arity + 1 →
      nameArgument arguments 1 "global:" = .ok name →
        e.step.machine.job = .answer ((log.lookup name).getD .nil)
  /-- `hasGlobal:` is false as long as nothing was written. -/
  hasGlobal : ∀ p arguments name, e.machine.job = .invoke (.primitive p) arguments →
    p.builtin = .hasGlobal → arguments.length = p.selector.arity + 1 →
      nameArgument arguments 1 "hasGlobal:" = .ok name →
        ∃ found, e.step.machine.job = .answer (.bool found) ∧
          (found = false ↔ ∀ v, (name, v) ∉ log)
  /-- An instruction that reads a global is answered what was written last. -/
  pushGlobal : ∀ a name v, e.machine.job = .execute a → a.code.reads? a.ip = some name →
    log.lookup name = some v → e.step.machine.job = .answer v ∧
      e.step.machine.pending = .sender { a with ip := a.ip + 2 } :: e.machine.pending
  /-- It reports the name as long as nothing was written, and then no more. -/
  unknown : ∀ a name, e.machine.job = .execute a → a.code.reads? a.ip = some name →
    ((∃ receiver, e.step.machine.job = .report receiver (.unknownGlobal name)) ↔
      ∀ v, (name, v) ∉ log)

/-- A name is not in the log. -/
theorem lookup_eq_none_iff (log : Bindings) (name : String) :
    log.lookup name = none ↔ ∀ v, (name, v) ∉ log := by
  rw [List.lookup_eq_none_iff]
  refine ⟨fun h v hv => ?_, fun h b hb => ?_⟩
  · simpa using h _ hv
  · obtain ⟨key, v⟩ := b
    rw [bne_iff_ne]
    rintro rfl
    exact h v hb

/-- Whatever the programs and the hosts are, what is read of globals is what was written last, or
    that nothing was written. -/
theorem remembers (h : Recorded e log) : e.Remembers log := by
  obtain ⟨s, hs⟩ := h.live.sound
  have hlogged := h.logged
  refine ⟨hlogged.distinct, fun e' hl name c => hl.find?, hlogged.read,
    fun p arguments name hjob hp harity hname => ?_,
    fun p arguments name hjob hp harity hname => ?_, fun a name v hjob hread hv => ?_,
    fun a name hjob hread => ?_⟩
  · have hstep := Machine.step_primitive hjob harity
    rw [hp] at hstep
    refine hstep.trans ?_
    show Objects.global arguments e.machine.world = _
    rw [Objects.global, hname, ← hlogged.read]
    rfl
  · refine ⟨(log.lookup name).isSome, ?_, ?_⟩
    · have hstep := Machine.step_primitive hjob harity
      rw [hp] at hstep
      refine hstep.trans ?_
      show Objects.hasGlobal arguments e.machine.world = _
      rw [Objects.hasGlobal, hname, ← hlogged.read]
      rfl
    · rw [← lookup_eq_none_iff, Option.isSome_eq_false_iff, Option.isNone_iff_eq_none]
  · obtain ⟨hpending, receiver, hstep⟩ := Machine.step_pushGlobal hs hjob hread
    rw [hlogged.read, hv] at hstep
    exact ⟨hstep, hpending⟩
  · obtain ⟨-, receiver, hstep⟩ := Machine.step_pushGlobal hs hjob hread
    rw [hlogged.read] at hstep
    rw [← lookup_eq_none_iff]
    show (∃ receiver, e.machine.step.job = _) ↔ _
    rw [hstep]
    cases log.lookup name with
    | none => exact ⟨fun _ => rfl, fun _ => ⟨receiver, rfl⟩⟩
    | some v =>
      refine ⟨?_, ?_⟩
      · rintro ⟨_, h⟩
        cases h
      · rintro ⟨⟩

/-! ### An instruction that was executed too early -/

theorem Recorded.step (h : Recorded e log) (hb : e.machine.bindings = []) :
    Recorded e.step log := by
  have hstep : Recorded e.step (e.machine.bindings.reverse ++ log) :=
    h.next (.proceeds (.step _)) .step
  rwa [hb] at hstep

theorem Recorded.call {q : Program Code} {arguments : List Value} (h : Recorded e log)
    (hi : e.machine.outcome ≠ .unfinished) (hq : ∀ l ∈ q.literals, e.machine.world.Admits l)
    (ha : e.machine.world.Covers arguments) : Recorded (e.call q arguments) log := by
  let w := e.machine.world
  let code : Code := .mk w.supply.code "call" none false q
  let w₁ := { w.adopt code with supply := { w.supply with code := w.supply.code + 1 } }
  have hassemble : w.Change w₁ := .assemble "call" false nofun hq
  have h₁ : Recorded (e.advance { e.machine with world := w₁ }) log :=
    h.next (.proceeds (.change hassemble rfl rfl)) (.other rfl)
  have hrequest : w₁.Requests (.invoke (.method code) arguments) :=
    ⟨⟨code, List.mem_cons_self, .self _⟩, ha⟩
  have hi₁ : Machine.outcome { e.machine with world := w₁ } ≠ .unfinished := hi
  exact h₁.next (.proceeds (.request hi₁ (.request hrequest))) (.other rfl)

/-- The host writes a number under a name, and asks for the code that was made last once more. -/
def writeAndRepeat (e : Ensemble) (name : String) (n : Int64) : Ensemble :=
  let w := e.machine.world.writeGlobal name (.int n)
  (e.advance { e.machine with world := w }).advance
    ⟨w, .invoke (.method (w.codes.headD default)) [.nil], []⟩

theorem Recorded.writeAndRepeat {name : String} {n : Int64} (h : Recorded e log)
    (hi : e.machine.outcome ≠ .unfinished) (hc : e.machine.world.codes ≠ []) :
    Recorded (e.writeAndRepeat name n) ((name, .int n) :: log) := by
  let w := e.machine.world.writeGlobal name (.int n)
  have hwrite : e.machine.world.Change w := .writeGlobal (v := .int n) name trivial
  have h₁ : Recorded (e.advance { e.machine with world := w }) ((name, .int n) :: log) :=
    h.next (.proceeds (.change hwrite rfl rfl)) (.writeGlobal name (.int n))
  have hrequest : w.Requests (.invoke (.method (w.codes.headD default)) [.nil]) := by
    refine ⟨⟨w.codes.headD default, ?_, .self _⟩, fun v hv => ?_⟩
    · cases hcodes : w.codes with
      | nil => exact absurd hcodes hc
      | cons code rest => exact List.mem_cons_self
    · rw [List.mem_singleton.1 hv]
      trivial
  exact h₁.next (.proceeds (.request hi (.request hrequest))) (.other rfl)

/-- A program that reads a global. -/
def readingProgram : Program Code :=
  { (default : Program Code) with
    tape := #[Opcode.pushGlobal.byte, 0]
    literals := #[.global "x"]
    arguments := #[default] }

/-- A method read a global that nothing was written under, and is about to do so once more after
    something was. -/
def rereading : Ensemble :=
  let e := (start (.bare .standard .standard .kept false)).call readingProgram [.nil]
  (e.step.step.step.step.writeAndRepeat "x" 3).step

theorem rereading_recorded : Recorded rereading [("x", .int 3)] := by
  have hliterals : ∀ l ∈ readingProgram.literals,
      (World.bare .standard .standard .kept false).Admits l := by
    intro l hl
    obtain rfl : l = .global "x" := by simpa [readingProgram] using hl
    trivial
  have hcovers : (World.bare .standard .standard .kept false).Covers [.nil] := by
    intro v hv
    rw [List.mem_singleton.1 hv]
    trivial
  have hcall := (Recorded.bare .standard .standard .kept false).call nofun hliterals hcovers
  have hended := (((hcall.step rfl).step rfl).step (by cbv)).step (by cbv)
  exact (hended.writeAndRepeat (by cbv; rintro ⟨⟩) (by cbv; rintro ⟨⟩)).step (by cbv)

/-- The instruction has found the cell of the name when it was empty, and answers what is in it
    now. -/
theorem remembers_rereading : Recorded rereading [("x", .int 3)] ∧
    rereading.machine.world.sites[((0, 0) : Location)]? = some (.global 0) ∧
    rereading.Remembers [("x", .int 3)] :=
  ⟨rereading_recorded, by cbv, remembers rereading_recorded⟩

end Ensemble

end Parley
