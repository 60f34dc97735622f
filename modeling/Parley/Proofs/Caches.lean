import Parley.Proofs.Reachable

/-!
# Speculation is never wrong

In every machine that comes about, whatever classes were defined, fields added and methods
installed at whatever time, what was remembered in the present epoch is what a lookup finds now:

* an entry of a dispatch chain leads to what is found for every receiver that its guard lets
  through, also if nothing is found;
* an instruction that is bound to a shortcut finds a primitive with that shortcut;
* a message to super is bound to what is found above the class of its method.

So a message comes to what a lookup without any memory would come to, by whatever instruction or
chain it is sent (`Machine.Reachable.faithful`).
-/

namespace Parley

variable {s : Stock} {w : World} {v : Value} {arguments : List Value} {selector : Selector}

/-! ### What is right to remember -/

/-- An entry that was made in an earlier epoch, or leads to what a lookup finds for every receiver
    that its guard lets through. -/
def Entry.Right (e : Entry) (w : World) (selector : Selector) : Prop :=
  e.epoch = w.classes.epoch →
    ∀ v, w.guardOf v = e.guard → e.target = .ofLookup (w.lookup v selector)

/-- A dispatch chain with such entries. -/
def Chain.Right (c : Chain) (w : World) : Prop :=
  ∀ entries, c.state = .cached entries → ∀ e ∈ entries, e.Right w c.selector

/-- What an instruction may be specialized to, by the message it sends. -/
def Site.Right (site : Site) (w : World) (code : Code) (ip : Nat) : Prop :=
  match site with
  | .global _ => code.sends? ip = none
  | .chain c => code.sends? ip = some (false, c.selector) ∧ c.Right w
  | .super target epoch => ∃ selector holder, code.sends? ip = some (true, selector) ∧
      code.holder = some holder ∧
        (epoch = w.classes.epoch → target = w.lookupAbove holder selector)
  | .eager op cls epoch _ => ∃ selector, code.sends? ip = some (false, selector) ∧
      (epoch = w.classes.epoch →
        ∀ v, w.classOf v = cls → (w.lookup v selector).bind Invokable.shortcut? = some op)

namespace World.Sound

theorem entry_right (h : w.Sound s) {e : Entry} (he : e.Sound s w.classes selector) :
    e.Right w selector := by
  intro hepoch v hv
  rw [he.target hepoch, ← hv, h.guardOf_cls]
  rfl

theorem chain_right (h : w.Sound s) {c : Chain} (hc : c.Sound s w.classes) : c.Right w :=
  fun entries hstate e he => h.entry_right (hc entries hstate e he)

theorem site_right (h : w.Sound s) {site : Site} {code : Code} {ip : Nat}
    (hs : site.Sound s w.classes code ip) : site.Right w code ip := by
  cases site with
  | global cell =>
    obtain ⟨name, hread⟩ := Option.isSome_iff_exists.1 hs
    exact Code.sends?_of_reads? hread
  | chain c => exact ⟨hs.1, h.chain_right hs.2⟩
  | super target epoch =>
    obtain ⟨selector, holder, hsend, hholder, -, htarget⟩ := hs
    exact ⟨selector, holder, hsend, hholder, htarget⟩
  | eager op cls epoch arity =>
    obtain ⟨selector, hsend, -, -, htarget⟩ := hs
    refine ⟨selector, hsend, fun hepoch v hv => ?_⟩
    rw [World.lookup, hv]
    exact htarget hepoch

end World.Sound

/-! ### Messages of instructions -/

/-- Counting changes nothing of what a message to super asks for. -/
theorem World.FulfilsSuper.of_count {code : Code} {f : Statistics → Statistics} {job : Job}
    (h : (w.count f).FulfilsSuper code selector arguments job) :
    w.FulfilsSuper code selector arguments job := by
  cases h with
  | found hholder => exact .found hholder
  | gone hnone => exact .gone hnone

/-- The receiver and the arguments of a message that an activation is about to send. -/
def Activation.message (a : Activation) (selector : Selector) : List Value :=
  (a.stack.take (selector.arity + 1)).reverse

namespace Machine

/-- A machine of which everything remembered is right, and every message that it is about to send
    comes to what a lookup comes to. -/
structure Faithful (m : Machine) : Prop where
  sites : ∀ code ip (site : Site), m.world.Wrote code → m.world.sites[(code.id, ip)]? = some site →
    site.Right m.world code ip
  chains : ∀ c, .chain c ∈ m.world.held → c.Right m.world
  /-- An instruction sends a message by whatever it is specialized to. -/
  send : ∀ a selector, m.job = .execute a → a.code.sends? a.ip = some (false, selector) →
    selector.arity < a.stack.length →
      m.world.Fulfils selector (a.message selector) m.step.job ∧ m.world.Agrees m.step.world
  /-- An instruction sends a message to super, by its binding or by a new one. -/
  sendSuper : ∀ a selector, m.job = .execute a → a.code.sends? a.ip = some (true, selector) →
    selector.arity < a.stack.length →
      m.world.FulfilsSuper a.code selector (a.message selector) m.step.job ∧
        m.world.Agrees m.step.world
  /-- A host sends a message through a chain in any state. -/
  dispatch : ∀ c arguments, .chain c ∈ m.world.held →
    m.world.Fulfils c.selector arguments (dispatch c arguments m.world).job ∧
      m.world.Agrees (dispatch c arguments m.world).world

variable {a : Activation} {k : List Pending}

theorem step_execute {op : Opcode} (hop : a.code.program.tape.opcode? a.ip = some op)
    (w : World) (k : List Pending) : step ⟨w, .execute a, k⟩ = instruction a op w k := by
  rw [Tape.opcode?] at hop
  split at hop
  · rename_i byte hbyte
    simp only [step, execute, hbyte, hop]
  · cases hop

theorem sends?_eq_some {code : Code} {ip : Nat} {toSuper : Bool}
    (h : code.sends? ip = some (toSuper, selector)) :
    code.program.tape.opcode? ip = some (.send toSuper) ∧
      code.program.literal? (code.program.tape.byteAt (ip + 1)) = some (.selector selector) := by
  rw [Code.sends?] at h
  split at h
  · rename_i b hop
    split at h
    · rename_i l hl
      cases h
      exact ⟨hop, hl⟩
    · cases h
  · cases h

theorem step_sends {toSuper : Bool} (hsend : a.code.sends? a.ip = some (toSuper, selector))
    (w : World) (k : List Pending) :
    ∃ index next, a.code.program.literal? index = some (.selector selector) ∧
      step ⟨w, .execute a, k⟩ = sendInstruction a toSuper index next w k := by
  -- The message and whether it is to super are read off the same instruction.
  obtain ⟨hop, hl⟩ := sends?_eq_some hsend
  exact ⟨_, _, hl, step_execute hop w k⟩

section Sends

variable (h : w.Sound s) (hcode : .block a.code ∈ s.written) {index : UInt8}
  (hl : a.code.program.literal? index = some (.selector selector))
  (harity : selector.arity < a.stack.length)

include h hcode hl harity

theorem sendInstruction_fulfils (ha : a.Sound s)
    (hsend : a.code.sends? a.ip = some (false, selector)) (next : Nat) :
    w.Fulfils selector (a.message selector) (sendInstruction a false index next w k).job ∧
      w.Agrees (sendInstruction a false index next w k).world := by
  let w₁ := w.count fun t => { t with sends := t.sends + 1 }
  -- The stack is deep enough, so that the message is sent.
  have heq : ∃ k₁, sendInstruction a false index next w k =
      after k₁ (sendFrom (a.code.id, a.ip) selector (a.message selector) w₁) := by
    rw [sendInstruction]
    rw [hl]
    exact ⟨_, if_neg (by omega)⟩
  obtain ⟨k₁, heq⟩ := heq
  have hargs : s.Covers (a.message selector) := (ha.stack.take _).reverse
  have h₁ : w₁.Sound s := h.count _
  have hs := (sendFrom_sent hcode hsend h₁ hargs).of_eq (w := w) rfl rfl
  rw [heq]
  exact ⟨hs.job, hs.agrees⟩

theorem sendInstruction_fulfilsSuper (hsend : a.code.sends? a.ip = some (true, selector))
    (next : Nat) :
    w.FulfilsSuper a.code selector (a.message selector)
        (sendInstruction a true index next w k).job ∧
      w.Agrees (sendInstruction a true index next w k).world := by
  let w₁ := w.count fun t => { t with sends := t.sends + 1 }
  have h₁ : w₁.Sound s := h.count _
  have hw₁ : w.Agrees w₁ := .count w _
  rw [sendInstruction]
  rw [hl]
  dsimp only
  rw [if_neg (by omega), if_pos rfl]
  split
  -- The instruction is bound in the present epoch, or it is bound now.
  · rename_i target ht
    obtain ⟨holder, hholder, rfl⟩ := boundSuper?_eq hcode hsend h₁ ht
    exact ⟨.found hholder, hw₁⟩
  · have hs := bindSuper_sent hcode hsend h₁ (a.message selector)
    exact ⟨(hs _).job.of_count, hw₁.trans (hs _).agrees⟩

end Sends

/-- Whatever happened before, and whatever classes, fields and methods came about meanwhile:
    nothing that is remembered is wrong, and every message comes to what a lookup comes to. -/
theorem Reachable.faithful {m : Machine} (h : m.Reachable) : m.Faithful := by
  obtain ⟨s, hs⟩ := h.sound
  obtain ⟨w, job, k⟩ := m
  have hw : w.Sound s := hs.world
  -- A code that sends a message is not the empty one.
  have hknown : ∀ {a toSuper selector}, job = .execute a →
      a.code.sends? a.ip = some (toSuper, selector) → a.Sound s ∧ .block a.code ∈ s.written := by
    rintro a toSuper selector rfl hsend
    have ha : a.Sound s := hs.job
    refine ⟨ha, ha.code.resolve_left fun hd => ?_⟩
    obtain ⟨hop, -⟩ := sends?_eq_some hsend
    rw [hd] at hop
    cases hop
  constructor
  case sites =>
    intro code ip site hcode hsite
    exact hw.site_right (hw.site (hw.wrote_iff.1 hcode) hsite)
  case chains =>
    intro c hc
    exact hw.chain_right (hw.held _ hc)
  case send =>
    rintro a selector rfl hsend harity
    obtain ⟨ha, hcode⟩ := hknown rfl hsend
    obtain ⟨index, next, hl, hstep⟩ := step_sends hsend w k
    rw [hstep]
    exact sendInstruction_fulfils hw hcode hl harity ha hsend next
  case sendSuper =>
    rintro a selector rfl hsend harity
    obtain ⟨-, hcode⟩ := hknown rfl hsend
    obtain ⟨index, next, hl, hstep⟩ := step_sends hsend w k
    rw [hstep]
    exact sendInstruction_fulfilsSuper hw hcode hl harity hsend next
  case dispatch =>
    intro c arguments hc
    have hd := Chain.dispatch_dispatched hw (hw.held _ hc) arguments
    exact ⟨(World.Agrees.refl w).fulfils hd.job, hd.agrees.trans (.of_eq rfl rfl)⟩

/-- A machine of a host that has asked nil whether it is nil, through a chain. -/
def warm : Machine :=
  let w := (World.bare .standard .standard .kept false).installPrimitive Core.object "isNil" .isNil
    (some .isNil)
  dispatch (.new "isNil") [.nil] { w with held := [.chain (.new "isNil")] }

/-- The chain has an entry of the present epoch then, which leads to the primitive. -/
theorem Reachable.faithful_warm : warm.Reachable ∧
    ∃ e, .chain ⟨"isNil", .cached [e]⟩ ∈ warm.world.held ∧ e.epoch = warm.world.classes.epoch ∧
      e.target = .ofLookup (warm.world.lookup .nil "isNil") := by
  let w := (World.bare .standard .standard .kept false).installPrimitive Core.object "isNil" .isNil
    (some .isNil)
  have hchanges : (World.bare .standard .standard .kept false).Changes w :=
    World.installPrimitive_changes _ _ _ _ _
  have hhold : w.Change { w with held := [.chain (.new "isNil")] } := .hold fun x hx => by
    rw [List.mem_singleton.1 hx]
    exact Or.inl ⟨"isNil", rfl⟩
  have hheld := ((Reachable.bare .standard .standard .kept false).changes hchanges).change hhold
  have hwarm : warm.Reachable := hheld.dispatch List.mem_cons_self fun v hv => by
    rw [List.mem_singleton.1 hv]
    trivial
  let e : Entry := ⟨.ofClass Core.nil, 1, .invoke (.primitive ⟨0, "isNil", .isNil, some .isNil⟩)⟩
  have he : .chain ⟨"isNil", .cached [e]⟩ ∈ warm.world.held := List.mem_cons_self
  exact ⟨hwarm, e, he, rfl, hwarm.faithful.chains _ he [e] rfl e List.mem_cons_self rfl .nil rfl⟩

end Machine

end Parley
