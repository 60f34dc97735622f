import Mathlib.Logic.Relation
import Parley.Library.Install
import Parley.Proofs.Lowering
import Parley.Proofs.Tables

/-!
# What hosts do

Between two runs, or while one waits, a host may define classes, add fields, compile methods,
install them anywhere, write globals and make values; it may hold on to values, codes and
dispatch chains, and send messages through chains that it holds; and it may go on with another
machine on the same world (`World.Change`). Then it gives the machine another job. The machines
that come about in that way from a new world are the *reachable* ones (`Machine.Reachable`).

All of them keep to a stock (`Machine.Reachable.sound`). The stock grows, and what referred to a
part of it refers to the whole.
-/

namespace Parley

variable {s s' : Stock} {w w' : World} {v : Value} {vs arguments : List Value}

/-! ### Larger stocks -/

section Larger

variable (hs : s.Le s')

include hs

theorem Value.Within.mono (h : v.Within s.classes) : v.Within s'.classes := by
  cases v with
  | classRef c => exact lt_of_lt_of_le h hs.classes
  | _ => trivial

theorem Stock.Covers.mono (h : s.Covers vs) : s'.Covers vs :=
  fun v hv => (h v hv).mono hs

theorem Stock.Knows.mono {c : Code} (h : s.Knows c) : s'.Knows c :=
  h.imp_right (hs.written ·)

theorem Literal.Fits.mono {l : Literal Code} (h : l.Fits s.classes) : l.Fits s'.classes := by
  cases l with
  | value v => exact Value.Within.mono hs h
  | block c => exact fun k hk => (h k hk).trans_le hs.classes
  | _ => trivial

theorem Invokable.Sound.mono {i : Invokable} (h : i.Sound s) : i.Sound s' := by
  cases i with
  | method c => exact Stock.Knows.mono hs h
  | primitive p => trivial

theorem Activation.Sound.mono {a : Activation} (h : a.Sound s) : a.Sound s' :=
  ⟨h.code.mono hs, h.stack.mono hs⟩

theorem Job.Sound.mono {job : Job} (h : job.Sound s) : job.Sound s' := by
  cases job with
  | execute a => exact Activation.Sound.mono hs h
  | send selector arguments => exact Stock.Covers.mono hs h
  | invoke i arguments => exact ⟨h.1.mono hs, h.2.mono hs⟩
  | evaluate b arguments => exact Stock.Covers.mono hs h
  | count next limit body result => exact Value.Within.mono hs h
  | cycle left body result => exact Value.Within.mono hs h
  | report receiver c =>
    refine ⟨h.1.mono hs, ?_⟩
    cases c with
    | notUnderstood selector arguments => exact Stock.Covers.mono hs h.2
    | escaped block v => exact Value.Within.mono hs h.2
    | unknownGlobal name => trivial
  | answer v => exact Value.Within.mono hs h
  | unwind u =>
    cases u with
    | nonLocal activation v => exact Value.Within.mono hs h
    | escaped block v => exact Value.Within.mono hs h
    | _ => trivial
  | hang => trivial

theorem Pending.Sound.mono {p : Pending} (h : p.Sound s) : p.Sound s' := by
  cases p with
  | sender a => exact Activation.Sound.mono hs h
  | reporter a => exact Activation.Sound.mono hs h
  | counting next limit body result => exact Value.Within.mono hs h
  | cycling left body result => exact Value.Within.mono hs h
  | _ => trivial

theorem Heap.Sound.mono {h : Heap} (hh : h.Sound s) : h.Sound s' where
  arrays items hi v hv := (hh.arrays items hi v hv).mono hs
  instances i hi := by
    have h := hh.instances i hi
    exact ⟨h.cls.trans_le hs.classes, h.layout_lt.trans_le hs.layouts,
      (hs.owner _ h.layout_lt).trans h.owner, h.size,
      h.room.trans (hs.layout _ h.cls).fieldCount_le, fun v hv => (h.fields v hv).mono hs⟩
  closures c hc := (hh.closures c hc).mono hs
  frames f hf :=
    ⟨fun v hv => ((hh.frames f hf).arguments v hv).mono hs,
      fun v hv => ((hh.frames f hf).locals v hv).mono hs⟩

variable {t t' : ClassTable} (ht : t.Later t' s.classes)

include ht

/-- What an entry tells stays right, or it is out of date. -/
theorem Entry.Sound.later {e : Entry} {selector : Selector} (h : e.Sound s t selector) :
    e.Sound s' t' selector := by
  have hg := h.guard
  -- A layout is that of its class for ever, so the guard is for the class it was for.
  have hcls : e.guard.cls s' = e.guard.cls s ∧ e.guard.cls s < s.classes := by
    cases hguard : e.guard with
    | ofClass c =>
      rw [hguard] at hg
      exact ⟨rfl, hg⟩
    | ofLayout l =>
      rw [hguard] at hg
      exact ⟨hs.owner l hg.1, hg.2⟩
  refine ⟨?_, h.epoch_le.trans ht.epoch_le, fun he => ?_⟩
  · cases hguard : e.guard with
    | ofClass c =>
      rw [hguard] at hg
      exact lt_of_lt_of_le hg hs.classes
    | ofLayout l =>
      rw [hguard] at hg
      exact ⟨hg.1.trans_le hs.layouts, hs.owner l hg.1 ▸ hg.2.trans_le hs.classes⟩
  -- An entry is never newer than the table it was made for.
  · have hepoch : t'.epoch = t.epoch := le_antisymm (he ▸ h.epoch_le) ht.epoch_le
    rw [h.target (he.trans hepoch), hcls.1, ht.lookup hepoch _ hcls.2]

theorem Chain.Sound.later {c : Chain} (h : c.Sound s t) : c.Sound s' t' :=
  fun entries hc e he => (h entries hc e he).later hs ht

theorem Held.Sound.later {x : Held} (h : x.Sound s t) : x.Sound s' t' := by
  cases x with
  | value v => exact Value.Within.mono hs h
  | code c => exact Stock.Knows.mono hs h
  | chain c => exact Chain.Sound.later hs ht h

theorem Site.Sound.later {site : Site} {code : Code} {ip : Nat} (h : site.Sound s t code ip)
    (hr : s.Regular) (hc : t.Sound s) (hcode : .block code ∈ s.written) :
    site.Sound s' t' code ip := by
  cases site with
  | global cell => exact h
  | chain c => exact ⟨h.1, h.2.later hs ht⟩
  | super target epoch =>
    obtain ⟨selector, holder, hsend, hholder, hle, htarget⟩ := h
    have hlt : holder < s.classes := hr.fits _ hcode holder hholder
    refine ⟨selector, holder, hsend, hholder, hle.trans ht.epoch_le, fun he => ?_⟩
    have hepoch : t'.epoch = t.epoch := le_antisymm (he ▸ hle) ht.epoch_le
    rw [htarget (he.trans hepoch), ht.superclass hepoch holder hlt]
    -- Nothing above the class has changed, nor what is installed there.
    cases hsuper : (t.get holder).superclass with
    | none => rfl
    | some c =>
      have hc := hc.lineage holder c (List.mem_of_mem_head? hsuper)
      exact (ht.lookup hepoch c hc selector).symm
  | eager op cls epoch arity =>
    obtain ⟨selector, hsend, hcls, hle, htarget⟩ := h
    refine ⟨selector, hsend, hcls.trans_le hs.classes, hle.trans ht.epoch_le, fun he => ?_⟩
    have hepoch : t'.epoch = t.epoch := le_antisymm (he ▸ hle) ht.epoch_le
    rw [ht.lookup hepoch cls hcls]
    exact htarget (he.trans hepoch)

end Larger

/-- A world whose class table was changed. -/
theorem World.Sound.setClasses (h : w.Sound s) {t : ClassTable} (hg : w.classes.Grown s t s')
    (hr : s'.Regular) : World.Sound { w with classes := t } s' where
  stock := hr
  classes := hg.sound
  heap := h.heap.mono hg.le
  globals c hc v hv := (h.globals c hc v hv).mono hg.le
  sites l site hl := by
    obtain ⟨code, hcode, hid, hsite⟩ := h.sites l site hl
    exact ⟨code, hg.le.written hcode, hid, hsite.later hg.le hg.later h.stock h.classes hcode⟩
  cells := hg.written ▸ h.cells
  held x hx := (h.held x hx).later hg.le hg.later
  written := hg.written.trans h.written
  numbered c hc := h.numbered c (hg.written ▸ hc)

/-- A larger stock of which the code is the same is regular if the other one is. -/
theorem Stock.Regular.of_le (h : s.Regular) (hs : s.Le s') (hw : s'.written = s.written) :
    s'.Regular where
  library := h.library.trans hs.classes
  layouts_pos := h.layouts_pos.trans_le hs.layouts
  first := (hs.owner 0 h.layouts_pos).trans h.first
  inside := hw ▸ h.inside
  fits l hl := (h.fits l (hw ▸ hl)).mono hs
  apart := hw ▸ h.apart

/-! ### More codes -/

/-- The stock with one more code, and the blocks in it. -/
def Stock.addCode (s : Stock) (code : Code) : Stock :=
  { s with written := s.written ∪ code.parts }

theorem Stock.le_addCode (s : Stock) (code : Code) : s.Le (s.addCode code) :=
  ⟨le_rfl, le_rfl, Set.subset_union_left, fun _ _ => rfl, fun _ _ => .inl rfl⟩

namespace World.Sound

/-- What is in a code of the stock is in the stock. -/
theorem has (h : w.Sound s) {c : Code} (hc : .block c ∈ s.written) {l : Literal Code}
    (hl : (Literal.block c).Has l) : l ∈ s.written := by
  rw [h.written] at hc ⊢
  obtain ⟨m, hm, hmc⟩ := hc
  exact ⟨m, hm, Literal.Has.trans hmc hl⟩

/-- A world with one more code, which was numbered from the next number on. -/
theorem adopt (h : w.Sound s) {code : Code} {next : Nat}
    (hg : Grows s.classes s.written w.supply.code (s.written ∪ code.parts) next) :
    World.Sound { w.adopt code with supply := { w.supply with code := next } }
      (s.addCode code) := by
  have hle := s.le_addCode code
  have hnumbered := hg.numbered ⟨h.numbered, h.stock.apart⟩
  have hlater : w.classes.Later w.classes s.classes :=
    ⟨le_rfl, fun _ _ _ _ => rfl, fun _ _ _ => rfl⟩
  refine ⟨⟨h.stock.library, h.stock.layouts_pos, h.stock.first, ?_, hg.fits h.stock.fits,
    hnumbered.inj⟩, { h.classes with methods := fun c sel i hi => ?_ }, h.heap.mono hle,
    h.globals, fun l site hl => ?_, fun l cell hl c key hc hid hread => ?_,
    fun x hx => (h.held x hx).later hle hlater, ?_, hnumbered.lt⟩
  · rintro c (hc | hc) l hl
    · exact .inl (h.stock.inside c hc l hl)
    · exact .inr (Literal.Has.trans hc (.inside hl (.self l)))
  · exact (h.classes.methods c sel i hi).mono hle
  · obtain ⟨c, hc, hid, hsite⟩ := h.sites l site hl
    exact ⟨c, .inl hc, hid, hsite.later hle hlater h.stock h.classes hc⟩
  -- The site was made for an old code with this number, so that it is the one.
  · obtain ⟨d, hd, hd', -⟩ := h.sites l _ hl
    obtain rfl := hnumbered.inj c d hc (.inl hd) (hid.trans hd'.symm)
    exact h.cells l cell hl c key hd hid hread
  · ext l
    simp only [Stock.addCode, World.adopt, h.written, List.mem_cons, Set.mem_union,
      Set.mem_ofPred_eq, exists_eq_or_imp]
    exact or_comm

end World.Sound

/-! ### What hosts change -/

namespace World

/-- A code that was made: a method, or a block in one at any depth. -/
def Wrote (w : World) (c : Code) : Prop :=
  ∃ m ∈ w.codes, .block c ∈ m.parts

/-- Values of classes that there are. -/
def Covers (w : World) (vs : List Value) : Prop :=
  ∀ v ∈ vs, v.Within w.classes.next

/-- A method that was compiled, for whatever class, or any primitive. -/
def Offers (w : World) : Invokable → Prop
  | .method c => w.Wrote c
  | .primitive _ => True

/-- What a host may hold on to. It makes dispatch chains by itself, but not what they hold. -/
def Lends (w : World) : Held → Prop
  | .value v => v.Within w.classes.next
  | .code c => w.Wrote c
  | .chain c => (∃ selector, c = .new selector) ∨ .chain c ∈ w.held

/-- A literal of a program that a host makes by itself. -/
def Admits (w : World) : Literal Code → Prop
  | .value v => v.Within w.classes.next
  | .block c => w.Wrote c
  | _ => True

/-- What a host does to a world. -/
inductive Change (w : World) : World → Prop
  | defineClass (name : String) {super : ClassRef} (fields : List String) :
      super < w.classes.next → Change w (w.defineClass name super fields).2
  | addField (c : ClassRef) (name : String) : Change w (w.addField c name).2
  | compile {c : ClassRef} (m : MethodTree) (inlining : Bool) :
      c < w.classes.next → Change w (w.compile c m inlining).2
  /-- A program that was not compiled is made a method or a block. -/
  | assemble (selector : Selector) {holder : Option ClassRef} (isBlock : Bool) {p : Program Code} :
      (∀ c, holder = some c → c < w.classes.next) → (∀ l ∈ p.literals, w.Admits l) →
        Change w { w.adopt (.mk w.supply.code selector holder isBlock p) with
          supply := { w.supply with code := w.supply.code + 1 } }
  /-- A method or primitive is installed in any class, also in another one than it is for. -/
  | install (c : ClassRef) {i : Invokable} : w.Offers i → Change w (w.install c i)
  | newPrimitive (selector : Selector) (builtin : Builtin) (shortcut : Option Shortcut) :
      Change w (w.newPrimitive selector builtin shortcut).2
  | newString (text : String) : Change w (w.newString text).2
  | newArray {vs : List Value} : w.Covers vs → Change w (w.newArray vs).2
  | newInstance {c : ClassRef} : c < w.classes.next → Change w (w.newInstance c).2
  | writeGlobal (name : String) {v : Value} :
      v.Within w.classes.next → Change w (w.writeGlobal name v)
  | updateLayout (o : ObjectRef) : Change w { w with heap := (w.heap.updateLayout w.classes o).2 }
  | setLocal (f : FrameRef) (slot : Nat) {v : Value} :
      v.Within w.classes.next → Change w { w with heap := w.heap.setLocal f slot v }
  | setArgument (f : FrameRef) (slot : Nat) {v : Value} :
      v.Within w.classes.next → Change w { w with heap := w.heap.setArgument f slot v }
  | hold {held : List Held} : (∀ x ∈ held, w.Lends x) → Change w { w with held }
  /-- What nothing refers to is changed: it is another machine's turn, with its own settings and
      its own handler, or output is taken away. -/
  | turn {w' : World} : w'.classes = w.classes → w'.heap = w.heap → w'.globals = w.globals →
      w'.sites = w.sites → w'.held = w.held → w'.codes = w.codes →
        w.supply.code ≤ w'.supply.code → Change w w'

end World

namespace World.Sound

theorem next_eq (h : w.Sound s) : w.classes.next = s.classes :=
  h.classes.size

theorem wrote_iff (h : w.Sound s) {c : Code} : w.Wrote c ↔ .block c ∈ s.written := by
  rw [h.written]
  rfl

theorem within (h : w.Sound s) (hv : v.Within w.classes.next) : v.Within s.classes :=
  h.next_eq ▸ hv

theorem covers (h : w.Sound s) (hvs : w.Covers vs) : s.Covers vs :=
  fun v hv => h.within (hvs v hv)

theorem offers (h : w.Sound s) {i : Invokable} (hi : w.Offers i) : i.Sound s := by
  cases i with
  | method c => exact .inr (h.wrote_iff.1 hi)
  | primitive p => trivial

theorem lends (h : w.Sound s) {x : Held} (hx : w.Lends x) : x.Sound s w.classes := by
  cases x with
  | value v => exact h.within hx
  | code c => exact .inr (h.wrote_iff.1 hx)
  | chain c =>
    rcases hx with ⟨selector, rfl⟩ | hx
    · rintro _ ⟨⟩ e ⟨⟩
    · exact h.held _ hx

/-- The codes in a literal that a host may use were there before. -/
theorem admits (h : w.Sound s) {m l : Literal Code} (hm : w.Admits m) (hl : m.Has l) :
    l.Fits s.classes ∧ ∀ c, l = .block c → .block c ∈ s.written := by
  cases hl with
  | self =>
    cases m with
    | value v => exact ⟨h.within hm, by rintro c ⟨⟩⟩
    | block c =>
      have hc := h.wrote_iff.1 hm
      exact ⟨h.stock.fits _ hc, by rintro _ ⟨⟩; exact hc⟩
    | _ => exact ⟨trivial, by rintro c ⟨⟩⟩
  | inside hmem hl =>
    have hc := h.has (h.wrote_iff.1 hm) (.inside hmem hl)
    exact ⟨h.stock.fits _ hc, by rintro _ rfl; exact hc⟩

/-- A program that a host makes from what there is grows the codes by one. -/
theorem assemble_grows (h : w.Sound s) (selector : Selector) {holder : Option ClassRef}
    (isBlock : Bool) {p : Program Code} (hh : ∀ c, holder = some c → c < w.classes.next)
    (hp : ∀ l ∈ p.literals, w.Admits l) :
    Grows s.classes s.written w.supply.code
      (s.written ∪ (Code.mk w.supply.code selector holder isBlock p).parts)
      (w.supply.code + 1) := by
  -- A host can only use codes that were made before.
  have hold : ∀ c, .block c ∈ s.written ∪ parts p.literals → .block c ∈ s.written := by
    rintro c (hc | ⟨m, hm, hc⟩)
    · exact hc
    · exact (h.admits (hp m hm) hc).2 c rfl
  have hliterals : Grows s.classes s.written w.supply.code (s.written ∪ parts p.literals)
      w.supply.code := by
    refine ⟨le_rfl, fun c hc => .inl (hold c hc), fun hn => ?_, fun hf l hl => ?_⟩
    · exact ⟨fun c hc => hn.lt c (hold c hc), fun c d hc hd => hn.inj c d (hold c hc) (hold d hd)⟩
    · rcases hl with hl | ⟨m, hm, hl⟩
      · exact hf l hl
      · exact (h.admits (hp m hm) hl).1
  rw [Code.parts_eq, Set.union_insert]
  exact hliterals.trans (.code _ rfl fun _ c hc => h.next_eq ▸ hh c hc)

/-- A method that is compiled grows the codes, and one that is not may still take numbers. -/
theorem compile (h : w.Sound s) {c : ClassRef} (hc : c < s.classes) (m : MethodTree)
    (inlining : Bool) : ∃ s', s.Le s' ∧ (w.compile c m inlining).2.Sound s' := by
  unfold World.compile
  extract_lets l w₁ w₂
  -- Apart from events, only the numbers that were taken are new.
  have h₂ : w₂ = { w₁ with events := w₂.events } := by
    dsimp only [w₂]
    split <;> rfl
  rw [h₂]
  split
  · exact ⟨s, .refl s, h.congr rfl rfl rfl rfl rfl rfl (lower_supply_le m c _ inlining w.supply)⟩
  · rename_i code hcode
    have hg := (lower_grows hc m _ inlining w.supply hcode).union s.written
    rw [Set.union_empty] at hg
    exact ⟨_, s.le_addCode code, (h.adopt hg).congr rfl rfl rfl rfl rfl rfl le_rfl⟩

end World.Sound

/-- Whatever a host does, there is a stock still, and nothing of the old one is gone. -/
theorem World.Change.sound (hc : w.Change w') (h : w.Sound s) : ∃ s', s.Le s' ∧ w'.Sound s' := by
  cases hc with
  | defineClass name fields hsuper =>
    have hroot : Core.class < s.classes := lt_of_lt_of_le (by decide) h.stock.library
    have hg := ClassTable.define_grown h.classes name fields (h.next_eq ▸ hsuper) hroot
    have h' := h.setClasses hg (h.stock.of_le hg.le hg.written)
    refine ⟨_, hg.le, h'.writeGlobal name ?_⟩
    -- The metaclass comes after the class, and the stock has got both.
    show w.classes.next < s.classes + 1 + 1
    rw [h.next_eq]
    exact Nat.lt_add_right 1 s.classes.lt_succ_self
  | addField c name =>
    have hg := ClassTable.addField_grown h.classes c name
    exact ⟨_, hg.le, (h.setClasses hg (h.stock.of_le hg.le hg.written)).note _⟩
  | compile m inlining hc => exact h.compile (h.next_eq ▸ hc) m inlining
  | assemble selector isBlock hh hp =>
    exact ⟨_, s.le_addCode _, h.adopt (h.assemble_grows selector isBlock hh hp)⟩
  | install c hi =>
    have hg := ClassTable.install_grown h.classes c (h.offers hi)
    exact ⟨_, hg.le, h.setClasses hg (h.stock.of_le hg.le hg.written)⟩
  | newPrimitive selector builtin shortcut => exact ⟨s, .refl s, { h with }⟩
  | newString text => exact ⟨s, .refl s, h.newString text⟩
  | newArray hvs => exact ⟨s, .refl s, h.newArray (h.covers hvs)⟩
  | newInstance hc => exact ⟨s, .refl s, h.newInstance (h.next_eq ▸ hc)⟩
  | writeGlobal name hv => exact ⟨s, .refl s, h.writeGlobal name (h.within hv)⟩
  | updateLayout o => exact ⟨s, .refl s, h.setHeap (h.heap.updateLayout h.classes o)⟩
  | setLocal f slot hv => exact ⟨s, .refl s, h.setHeap (h.heap.setLocal f slot (h.within hv))⟩
  | setArgument f slot hv =>
    exact ⟨s, .refl s, h.setHeap (h.heap.setArgument f slot (h.within hv))⟩
  | hold hx => exact ⟨s, .refl s, { h with held := fun x hmem => h.lends (hx x hmem) }⟩
  | turn hc hh hg hs hd ho hn => exact ⟨s, .refl s, h.congr hc hh hg hs hd ho hn⟩

/-! ### Several changes -/

namespace World

/-- What a host does to a world, one thing after another. -/
def Changes : World → World → Prop :=
  Relation.ReflTransGen Change

namespace Changes

theorem refl (w : World) : w.Changes w :=
  Relation.ReflTransGen.refl

theorem trans {w'' : World} (h : w.Changes w') (h' : w'.Changes w'') : w.Changes w'' :=
  Relation.ReflTransGen.trans h h'

theorem single (h : w.Change w') : w.Changes w' :=
  Relation.ReflTransGen.single h

theorem sound (h : w.Changes w') (hw : w.Sound s) : ∃ s', s.Le s' ∧ w'.Sound s' := by
  induction h with
  | refl => exact ⟨s, .refl s, hw⟩
  | tail _ hc ih =>
    obtain ⟨s', hs', hw'⟩ := ih
    obtain ⟨s'', hs'', hw''⟩ := hc.sound hw'
    exact ⟨s'', hs'.trans hs'', hw''⟩

theorem foldl {α : Type} {f : World → α → World}
    (hf : ∀ (w : World) (a : α), w.Changes (f w a)) (as : List α)
    (w : World) : w.Changes (as.foldl f w) := by
  induction as generalizing w with
  | nil => exact .refl w
  | cons a as ih => exact (hf w a).trans (ih _)

end Changes

theorem compile_classes (w : World) (c : ClassRef) (m : MethodTree) (inlining : Bool) :
    (w.compile c m inlining).2.classes = w.classes := by
  unfold compile
  extract_lets l w₁ w₂
  have h₂ : w₂.classes = w.classes := by
    dsimp only [w₂]
    split <;> rfl
  split <;> exact h₂

theorem compile_wrote {c : ClassRef} {m : MethodTree} {inlining : Bool} {code : Code}
    (h : w.compile c m inlining = (.ok code, w')) : w'.Wrote code := by
  unfold compile at h
  extract_lets l w₁ w₂ at h
  split at h
  · cases h
  · cases h
    exact ⟨code, List.mem_cons_self, .self _⟩

/-- To compile a method and install it is two changes. -/
theorem define_changes {c : ClassRef} (hc : c < w.classes.next) (m : MethodTree) :
    w.Changes (w.define c m).2 ∧ (w.define c m).2.classes.next = w.classes.next := by
  have hcompile : w.Changes (w.compile c m w.settings.inlining).2 := .single (.compile m _ hc)
  have hclasses := w.compile_classes c m w.settings.inlining
  rw [define]
  split
  · rename_i w' hr
    rw [hr] at hcompile hclasses
    exact ⟨hcompile, congrArg ClassTable.next hclasses⟩
  · rename_i code w' hr
    rw [hr] at hcompile hclasses
    have hinstall : w'.Change (w'.install c (.method code)) := .install c (compile_wrote hr)
    refine ⟨hcompile.trans (.single hinstall), ?_⟩
    exact Array.size_modify.trans (congrArg ClassTable.next hclasses)

theorem defineAll_changes {c : ClassRef} (hc : c < w.classes.next) (ms : List MethodTree) :
    w.Changes (w.defineAll c ms).2 := by
  induction ms generalizing w with
  | nil => exact .refl w
  | cons m rest ih =>
    obtain ⟨hdefine, hnext⟩ := define_changes hc m
    rw [defineAll]
    split
    · rename_i e w' hr
      rw [hr] at hdefine
      exact hdefine
    · rename_i code w' hr
      rw [hr] at hdefine hnext
      exact hdefine.trans (ih (hnext ▸ hc))

theorem installPrimitive_changes (w : World) (c : ClassRef) (selector : Selector)
    (builtin : Builtin) (shortcut : Option Shortcut) :
    w.Changes (w.installPrimitive c selector builtin shortcut) :=
  (Changes.single (.newPrimitive selector builtin shortcut)).trans
    (.single (.install c (show Offers _ (.primitive _) from trivial)))

theorem bindAll_changes {entries : List (String × ClassRef)}
    (he : ∀ e ∈ entries, e.2 < w.classes.next) :
    w.Changes (entries.foldl (fun w (name, c) => w.writeGlobal name (.classRef c)) w) := by
  induction entries generalizing w with
  | nil => exact .refl w
  | cons e rest ih =>
    have hwrite : w.Change (w.writeGlobal e.1 (.classRef e.2)) :=
      .writeGlobal e.1 (he e List.mem_cons_self)
    exact (Changes.single hwrite).trans (ih fun e' he' => he e' (List.mem_cons_of_mem _ he'))

/-- A world with nothing installed keeps to the stock of the classes of the library. -/
theorem bare_sound (settings : Settings) (handler : Handler) (sink : Sink) (watched : Bool) :
    ∃ s, (bare settings handler sink watched).Sound s := by
  obtain ⟨s, ht, hclasses, hlayouts, hfirst, hwritten⟩ := ClassTable.initial_sound
  refine ⟨s, ?_⟩
  -- No code was made yet.
  have hnone : ∀ {l : Literal Code} {p : Prop}, l ∈ s.written → p := fun hl =>
    absurd hl (hwritten ▸ Set.notMem_empty _)
  exact {
    stock := {
      library := hclasses.ge
      layouts_pos := by omega
      first := hfirst
      inside := fun _ hc => hnone hc
      fits := fun _ hl => hnone hl
      apart := fun _ _ hc => hnone hc }
    classes := ht
    heap := by constructor <;> rintro x ⟨⟨⟩⟩
    globals := by rintro c ⟨⟨⟩⟩
    sites := by
      intro l site hl
      rw [bare, Std.HashMap.getElem?_empty] at hl
      cases hl
    cells := by
      intro l cell hl
      rw [bare, Std.HashMap.getElem?_empty] at hl
      cases hl
    held := by rintro x ⟨⟩
    written := by
      rw [hwritten]
      ext l
      simp [bare]
    numbered := fun _ hc => hnone hc }

/-- An event is nothing that anything refers to. -/
theorem note_change (w : World) (e : Event) : w.Change (w.note e) := by
  rw [note]
  split
  · exact .turn rfl rfl rfl rfl rfl rfl le_rfl
  · exact .turn rfl rfl rfl rfl rfl rfl le_rfl

/-- Installing the library is what a host could do as well. -/
theorem boot_changes (settings : Settings) (handler : Handler) (sink : Sink) (watched : Bool) :
    (bare settings handler sink watched).Changes (boot settings handler sink watched) := by
  obtain ⟨s, hbare⟩ := bare_sound settings handler sink watched
  -- What is installed later is for classes that are there all along.
  have hlibrary : ∀ {w}, (bare settings handler sink watched).Changes w →
      ∃ s, w.Sound s ∧ 28 ≤ w.classes.next := fun h => by
    obtain ⟨s', -, hw⟩ := h.sound hbare
    exact ⟨s', hw, hw.next_eq ▸ hw.stock.library⟩
  unfold boot installLibrary
  extract_lets w₁
  have h₁ : (bare settings handler sink watched).Changes w₁ := by
    refine Changes.foldl ?_ Library.primitives _
    rintro w ⟨c, entries⟩
    refine Changes.foldl ?_ entries w
    rintro w ⟨selector, builtin, shortcut⟩
    exact w.installPrimitive_changes c selector builtin shortcut
  obtain ⟨s₁, hs₁, hnext₁⟩ := hlibrary h₁
  have h₂ := h₁.trans (defineAll_changes (c := Core.block) (lt_of_lt_of_le (by decide) hnext₁)
    Library.loops)
  generalize w₁.defineAll Core.block Library.loops = r at h₂ ⊢
  obtain ⟨_, w₂⟩ := r
  dsimp only at h₂ ⊢
  obtain ⟨s₂, hs₂, hnext₂⟩ := hlibrary h₂
  have h₃ : w₂.Changes w₂.bindClasses :=
    bindAll_changes fun e he => hs₂.next_eq ▸ hs₂.classes.registered e he
  obtain ⟨s₃, hs₃, hnext₃⟩ := hlibrary (h₂.trans h₃)
  -- At last the instance that the library calls the system.
  have h₄ : w₂.bindClasses.Change (w₂.bindClasses.newInstance Core.system).2 :=
    .newInstance (lt_of_lt_of_le (by decide) hnext₃)
  have hsystem : ∀ k, (w₂.bindClasses.newInstance Core.system).1.Within k := fun _ => trivial
  refine (h₂.trans h₃).trans ((Changes.single h₄).trans ?_)
  generalize w₂.bindClasses.newInstance Core.system = r at hsystem ⊢
  obtain ⟨system, w₄⟩ := r
  exact (Changes.single (.writeGlobal "system" (hsystem _))).trans (.single (note_change _ _))

end World

/-! ### Machines that come about -/

/-- A job that a host may give a machine. -/
def World.Requests (w : World) : Job → Prop
  | .send _ arguments => w.Covers arguments
  | .invoke i arguments => w.Offers i ∧ w.Covers arguments
  | .evaluate _ arguments => w.Covers arguments
  | _ => False

namespace Machine

/-- A machine that is to do what a chain of the host answers to a message. The host holds on to
    the chain as it is then. -/
def dispatch (c : Chain) (arguments : List Value) (w : World) : Machine :=
  let (job, c, w) := c.dispatch arguments w
  ⟨{ w with held := .chain c :: w.held }, job, []⟩

/-- The machines that come about. A host may do something between any two steps, and may give up
    a run for another one. -/
inductive Reachable : Machine → Prop
  | bare (settings : Settings) (handler : Handler) (sink : Sink) (watched : Bool) :
      Reachable ⟨.bare settings handler sink watched, .answer .nil, []⟩
  | step {m : Machine} : Reachable m → Reachable m.step
  | change {m : Machine} {w : World} :
      Reachable m → m.world.Change w → Reachable { m with world := w }
  | request {m : Machine} {job : Job} :
      Reachable m → m.world.Requests job → Reachable ⟨m.world, job, []⟩
  | dispatch {m : Machine} {c : Chain} {arguments : List Value} :
      Reachable m → .chain c ∈ m.world.held → m.world.Covers arguments →
        Reachable (dispatch c arguments m.world)

/-- A host may do several things at once. -/
theorem Reachable.changes {m : Machine} {w : World} (h : m.Reachable) (hc : m.world.Changes w) :
    Reachable { m with world := w } := by
  induction hc with
  | refl => exact h
  | tail _ hc ih => exact ih.change hc

/-- A machine with the library comes about. -/
theorem Reachable.boot (settings : Settings) (handler : Handler) (sink : Sink) (watched : Bool) :
    Reachable ⟨.boot settings handler sink watched, .answer .nil, []⟩ :=
  (Reachable.bare settings handler sink watched).changes
    (World.boot_changes settings handler sink watched)

theorem Sound.mono {m : Machine} (h : m.Sound s) (hs : s.Le s') {w : World} (hw : w.Sound s') :
    Machine.Sound { m with world := w } s' :=
  ⟨hw, h.job.mono hs, fun p hp => (h.pending p hp).mono hs⟩

theorem requests_sound (h : w.Sound s) {job : Job} (hj : w.Requests job) : job.Sound s := by
  cases job with
  | send selector arguments => exact h.covers hj
  | invoke i arguments => exact ⟨h.offers hj.1, h.covers hj.2⟩
  | evaluate b arguments => exact h.covers hj
  | _ => exact hj.elim

theorem dispatch_sound (h : w.Sound s) {c : Chain} (hc : .chain c ∈ w.held)
    (ha : s.Covers arguments) : (dispatch c arguments w).Sound s := by
  have hd := Chain.dispatch_dispatched h (h.held _ hc) arguments
  rw [dispatch]
  dsimp only
  refine ⟨{ hd.world with held := fun x hx => ?_ }, ?_, by rintro p ⟨⟩⟩
  · rcases List.mem_cons.1 hx with rfl | hx
    · exact hd.agrees.classes ▸ hd.chain
    · exact hd.world.held x hx
  -- The job is to call what was found, or to look the message up.
  · rcases hd.job with hj | hj
    · exact hj ▸ send_sound h ha c.selector
    · exact hj ▸ ha

/-- A machine that comes about keeps to a stock. -/
theorem Reachable.sound {m : Machine} (h : m.Reachable) : ∃ s, m.Sound s := by
  induction h with
  | bare settings handler sink watched =>
    obtain ⟨s, hs⟩ := World.bare_sound settings handler sink watched
    exact ⟨s, hs, trivial, by rintro p ⟨⟩⟩
  | step _ ih =>
    obtain ⟨s, hs⟩ := ih
    exact ⟨s, step_sound hs⟩
  | change _ hc ih =>
    obtain ⟨s, hs⟩ := ih
    obtain ⟨s', hle, hw⟩ := hc.sound hs.world
    exact ⟨s', hs.mono hle hw⟩
  | request _ hj ih =>
    obtain ⟨s, hs⟩ := ih
    exact ⟨s, hs.world, requests_sound hs.world hj, by rintro p ⟨⟩⟩
  | dispatch _ hc ha ih =>
    obtain ⟨s, hs⟩ := ih
    exact ⟨s, dispatch_sound hs.world hc (hs.world.covers ha)⟩

end Machine

end Parley

