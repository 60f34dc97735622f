import Parley.Proofs.Upkeep

/-!
# What is remembered is what would be found

A message that goes through a dispatch chain, a shortcut or a binding of super comes to the same
job as a lookup, whatever was remembered: an entry or a binding of the present epoch has the
target that a lookup finds, and one of an earlier epoch is not used.

* `Chain.dispatch_dispatched`: chains, in any state;
* `sendFrom_sent`: messages of instructions, by whatever they are specialized to;
* `boundSuper?_eq`, `bindSuper_sent`: messages to super.
-/

namespace Parley

variable {s : Stock} {w w' : World} {v : Value} {arguments : List Value} {selector : Selector}

/-! ### Lookups -/

@[simp] theorem World.note_classes (w : World) (e : Event) : (w.note e).classes = w.classes := by
  rw [World.note]
  split <;> rfl

@[simp] theorem World.note_heap (w : World) (e : Event) : (w.note e).heap = w.heap := by
  rw [World.note]
  split <;> rfl

@[simp] theorem World.note_globals (w : World) (e : Event) : (w.note e).globals = w.globals := by
  rw [World.note]
  split <;> rfl

@[simp] theorem World.noteQuickened_globals (w : World) (message : String)
    (fields : List (String × String)) : (w.noteQuickened message fields).globals = w.globals :=
  World.note_globals _ _

/-- Two worlds in which every lookup finds the same. -/
structure World.Agrees (w w' : World) : Prop where
  classes : w'.classes = w.classes
  classOf : ∀ v, w'.classOf v = w.classOf v

namespace World.Agrees

theorem refl (w : World) : w.Agrees w :=
  ⟨rfl, fun _ => rfl⟩

theorem trans {w'' : World} (h : w.Agrees w') (h' : w'.Agrees w'') : w.Agrees w'' :=
  ⟨h'.classes.trans h.classes, fun v => (h'.classOf v).trans (h.classOf v)⟩

theorem lookup (h : w.Agrees w') (v : Value) (selector : Selector) :
    w'.lookup v selector = w.lookup v selector := by
  rw [World.lookup, World.lookup, h.classes, h.classOf]

/-- A change of neither the classes nor the heap. -/
theorem of_eq (hc : w'.classes = w.classes) (hh : w'.heap = w.heap) : w.Agrees w' := by
  -- The class of a value is looked up in the table or in the heap.
  refine ⟨hc, fun v => ?_⟩
  cases v <;> simp only [World.classOf, hc, hh]

theorem count (w : World) (f : Statistics → Statistics) : w.Agrees (w.count f) :=
  .of_eq rfl rfl

theorem note (w : World) (e : Event) : w.Agrees (w.note e) :=
  .of_eq (w.note_classes e) (w.note_heap e)

end World.Agrees

/-! ### Guards -/

namespace World.Sound

/-- The guard of a receiver is for its class. -/
theorem guardOf_cls (h : w.Sound s) (v : Value) : (w.guardOf v).cls s = w.classOf v := by
  unfold World.guardOf
  split
  · exact (h.heap.instance_ h.stock _).owner
  · rfl

theorem guardOf_within (h : w.Sound s) (v : Value) : (w.guardOf v).Within s := by
  unfold World.guardOf
  split
  · rename_i o
    have hi := h.heap.instance_ h.stock o
    exact ⟨hi.layout_lt, hi.owner ▸ hi.cls⟩
  · exact h.classOf_lt _

/-- An entry that matches has the target that a lookup finds. -/
theorem hit?_eq (h : w.Sound s) {entries : List Entry}
    (he : ∀ e ∈ entries, e.Sound s w.classes selector) {t : Target}
    (ht : Chain.hit? entries (w.guardOf v) w.classes.epoch = some t) :
    t = .ofLookup (w.lookup v selector) := by
  obtain ⟨e, hfind, rfl⟩ := Option.map_eq_some_iff.1 ht
  have hmem := he e (List.mem_of_find?_eq_some hfind)
  have hmatch := List.find?_some hfind
  simp only [Bool.and_eq_true, decide_eq_true_eq] at hmatch
  -- The entry is of the present epoch, and its guard is for the class of the receiver.
  rw [hmem.target hmatch.1, hmatch.2, h.guardOf_cls]
  rfl

theorem migrate (h : w.Sound s) (v : Value) : (w.migrate v).Sound s := by
  unfold World.migrate
  split
  · exact h.setHeap (h.heap.updateLayout h.classes _)
  · exact h

end World.Sound

theorem Heap.updateLayout_cls (h : Heap) (t : ClassTable) (o o' : ObjectRef) :
    ((h.updateLayout t o).2.instance_ o').cls = (h.instance_ o').cls := by
  unfold Heap.updateLayout
  dsimp only
  split
  · rfl
  · simp only [Heap.instance_, Array.getD_eq_getD_getElem?, Array.getElem?_modify]
    split
    · rename_i heq
      subst heq
      cases h.instances[o]? <;> rfl
    · rfl

/-- Bringing an instance up to date does not change what is found. -/
theorem World.migrate_agrees (w : World) (v : Value) : w.Agrees (w.migrate v) := by
  unfold World.migrate
  split
  · refine ⟨rfl, fun u => ?_⟩
    cases u with
    | object o' => exact w.heap.updateLayout_cls w.classes _ o'
    | bool b => cases b <;> rfl
    | _ => rfl
  · exact .refl w

/-! ### Jobs for a message -/

/-- A job that does what a message asks for. -/
inductive World.Fulfils (w : World) (selector : Selector) (arguments : List Value) : Job → Prop
  /-- It calls what a lookup finds, or reports that nothing is found. -/
  | found : Fulfils w selector arguments (Machine.send selector arguments w)
  /-- It looks the message up. -/
  | lookup : Fulfils w selector arguments (.send selector arguments)
  /-- A lookup finds a primitive with a shortcut, and it takes that. -/
  | shortcut {p : Primitive} {op : Shortcut} {job : Job} :
      w.lookup (argument arguments 0) selector = some (.primitive p) → p.shortcut = some op →
      Option.map (·.1) ( op.apply? arguments w) = some job → Fulfils w selector arguments job

theorem headD_eq_argument (arguments : List Value) :
    arguments.headD .nil = argument arguments 0 := by
  cases arguments <;> rfl

/-- The job for the target that a lookup leads to. -/
theorem Target.job_ofLookup (w : World) (selector : Selector) (arguments : List Value) :
    (Target.ofLookup (w.lookup (argument arguments 0) selector)).job selector arguments =
      Machine.send selector arguments w := by
  rw [Machine.send]
  cases w.lookup (argument arguments 0) selector with
  | some i => rfl
  | none => simp only [Target.ofLookup, Target.job, headD_eq_argument]

/-- Where lookups find the same, messages come to the same. -/
theorem World.Agrees.send (h : w.Agrees w') (selector : Selector) (arguments : List Value) :
    Machine.send selector arguments w' = Machine.send selector arguments w := by
  rw [Machine.send, Machine.send, h.lookup]

theorem World.Agrees.fulfils (h : w.Agrees w') {job : Job}
    (hj : job = Machine.send selector arguments w' ∨ job = .send selector arguments) :
    w.Fulfils selector arguments job := by
  rcases hj with rfl | rfl
  · rw [h.send]
    exact .found
  · exact .lookup

/-! ### Chains -/

namespace Chain

/-- What comes of a message that goes through a chain. -/
structure Dispatched (s : Stock) (w : World) (c : Chain) (arguments : List Value)
    (r : Job × Chain × World) : Prop where
  job : r.1 = Machine.send c.selector arguments w ∨ r.1 = .send c.selector arguments
  selector : r.2.1.selector = c.selector
  chain : r.2.1.Sound s w.classes
  world : r.2.2.Sound s
  agrees : w.Agrees r.2.2

/-- A new entry is made by a lookup. -/
theorem newEntry_sound (h : w.Sound s) (selector : Selector) (v : Value) :
    (newEntry selector v w).1.Sound s w.classes selector ∧
      (newEntry selector v w).1.target = .ofLookup (w.lookup v selector) ∧
        (newEntry selector v w).2.Sound s ∧ w.Agrees (newEntry selector v w).2 := by
  have htarget : ∀ t, t = Target.ofLookup (w.lookup v selector) →
      Entry.Sound ⟨w.guardOf v, w.classes.epoch, t⟩ s w.classes selector := by
    rintro t rfl
    exact ⟨h.guardOf_within v, le_rfl, fun _ => by rw [h.guardOf_cls]; rfl⟩
  unfold newEntry
  dsimp only
  split
  · rename_i i hi
    rw [hi] at htarget ⊢
    exact ⟨htarget _ rfl, rfl, h, .refl w⟩
  · rename_i hi
    rw [hi] at htarget ⊢
    exact ⟨htarget _ rfl, rfl, h.note _, .note w _⟩

theorem uncached_sound (h : w.Sound s) (selector : Selector) (arguments : List Value) :
    (uncached selector arguments w).2.Sound s ∧ w.Agrees (uncached selector arguments w).2 := by
  rw [uncached]
  dsimp only
  exact ⟨h.count _, .count w _⟩

theorem countHit_sound (h : w.Sound s) : (countHit w).Sound s ∧ w.Agrees (countHit w) := by
  rw [countHit]
  exact ⟨h.count _, .count w _⟩

/-- A world that finds the same comes to the same. -/
theorem Dispatched.of_agrees {c : Chain} {r : Job × Chain × World}
    (h : Dispatched s w' c arguments r) (hw : w.Agrees w') : Dispatched s w c arguments r where
  job := by
    rw [← hw.send]
    exact h.job
  selector := h.selector
  chain := hw.classes ▸ h.chain
  world := h.world
  agrees := hw.trans h.agrees

/-- A message that no entry matches is answered by a lookup, and the entries stay right. -/
theorem specialize_dispatched (h : w.Sound s) {entries : List Entry}
    (he : ∀ e ∈ entries, e.Sound s w.classes selector) (arguments : List Value) :
    Dispatched s w ⟨selector, .cached entries⟩ arguments
      (specialize selector entries arguments w) := by
  unfold specialize
  extract_lets w₁ receiver w₂
  have h₁ : w₁.Sound s := h.count _
  have hw₁ : w.Agrees w₁ := .count w _
  refine .of_agrees (show Dispatched s w₁ _ arguments _ from ?_) hw₁
  have he : ∀ e ∈ entries, e.Sound s w₁.classes selector := he
  -- A message without arguments has nil for its receiver, here and in a lookup.
  have hreceiver : receiver = argument arguments 0 := headD_eq_argument arguments
  have hnew := newEntry_sound h₁ selector receiver
  have hjob : (newEntry selector receiver w₁).1.target.job selector arguments =
      Machine.send selector arguments w₁ := by
    rw [hnew.2.1, hreceiver, Target.job_ofLookup]
  split
  -- An entry matches, so that there is nothing to remember.
  · rename_i t hm
    rw [miss] at hm
    split at hm
    · rename_i t' ht
      cases hm
      refine ⟨.inl ?_, rfl, ?_, h₁, .refl w₁⟩
      · rw [h₁.hit?_eq he ht, hreceiver, Target.job_ofLookup]
      · rintro _ ⟨⟩
        exact he
    · split at hm
      · cases hm
      · split at hm <;> cases hm
  -- An entry that is out of date makes room for the new one.
  · refine ⟨.inl hjob, rfl, ?_, hnew.2.2.1.note _, hnew.2.2.2.trans (.note _ _)⟩
    rintro _ ⟨⟩ e hmem
    rcases List.mem_or_eq_of_mem_set hmem with hmem | rfl
    · exact he e hmem
    · exact hnew.1
  -- Too many entries: nothing is remembered from now on.
  · have hu := uncached_sound (h₁.note _ : w₂.Sound s) selector arguments
    refine ⟨.inr rfl, rfl, ?_, hu.1, .trans (.note w₁ _ : w₁.Agrees w₂) hu.2⟩
    rintro _ ⟨⟩
  · refine ⟨.inl hjob, rfl, ?_, hnew.2.2.1.note _, hnew.2.2.2.trans (.note _ _)⟩
    rintro _ ⟨⟩ e hmem
    rcases List.mem_append.1 hmem with hmem | hmem
    · exact he e hmem
    · rw [List.mem_singleton.1 hmem]
      exact hnew.1

/-- A message that goes through a chain comes to the job that a lookup leads to, and what the chain
    holds stays right: whatever it held, and whoever the receiver is. -/
theorem dispatch_dispatched (h : w.Sound s) {c : Chain} (hc : c.Sound s w.classes)
    (arguments : List Value) : Dispatched s w c arguments (c.dispatch arguments w) := by
  obtain ⟨selector, state⟩ := c
  rw [dispatch]
  cases state with
  | megamorphic =>
    have hu := uncached_sound h selector arguments
    exact ⟨.inr rfl, rfl, hc, hu.1, hu.2⟩
  | cached entries =>
    have he := hc entries rfl
    -- What matches before an instance is brought up to date, or afterwards.
    have hhit : ∀ {w' job}, w'.Sound s → w.Agrees w' →
        cached? selector entries arguments w' = some job →
          Dispatched s w ⟨selector, .cached entries⟩ arguments
            (job, ⟨selector, .cached entries⟩, countHit w') := by
      intro w' job h' hw hjob
      obtain ⟨t, ht, rfl⟩ := Option.map_eq_some_iff.1 hjob
      rw [headD_eq_argument] at ht
      refine ⟨.inl ?_, rfl, hc, (countHit_sound h').1, hw.trans (countHit_sound h').2⟩
      rw [h'.hit?_eq (hw.classes ▸ he) ht, Target.job_ofLookup, hw.send]
    dsimp only
    split
    · rename_i job hjob
      exact hhit h (.refl w) hjob
    · split
      · exact specialize_dispatched h he arguments
      · have h' := h.migrate (arguments.headD .nil)
        have hw := w.migrate_agrees (arguments.headD .nil)
        split
        · rename_i job hjob
          exact hhit h' hw hjob
        · exact (specialize_dispatched h' (hw.classes ▸ he) arguments).of_agrees hw

end Chain

/-! ### Shortcuts -/

theorem Numbers.notePromotion_agrees (op : Arith) (a b : Value) (w : World) :
    w.Agrees (Numbers.notePromotion op a b w) := by
  unfold Numbers.notePromotion
  split
  · split
    · split
      · exact .note w _
      · exact .refl w
    · exact .refl w
  · exact .refl w

/-- A shortcut changes nothing that lookups depend on. -/
theorem Shortcut.apply?_agrees {op : Shortcut} {r : Job × World}
    (hr : op.apply? arguments w = some r) : w.Agrees r.2 := by
  rcases op.apply?_world hr with hw | ⟨op, a, b, hw⟩
  · rw [hw]
    exact .refl w
  · rw [hw]
    exact Numbers.notePromotion_agrees op a b w

/-- The job of a shortcut depends on the operands and on the closures only. -/
theorem Shortcut.apply?_job (op : Shortcut) (arguments : List Value) (hh : w'.heap = w.heap) :
    Option.map (·.1) ( op.apply? arguments w') = Option.map (·.1) ( op.apply? arguments w) := by
  unfold Shortcut.apply?
  cases op with
  | arith op =>
    dsimp only
    split <;> rfl
  | compare c =>
    dsimp only
    split <;> simp only [Option.map_map] <;> rfl
  | identical => rfl
  | isNil => rfl
  | notNil => rfl
  | not =>
    dsimp only
    split <;> rfl
  | blockValue n =>
    dsimp only
    rw [hh]
    split
    · split <;> rfl
    · rfl
  | count =>
    dsimp only
    rw [hh]
    split
    · split <;> rfl
    · rfl

/-! ### Call sites -/

namespace World.Sound

variable {code : Code} {ip : Nat}

/-- The site of an instruction of the stock. -/
theorem site (h : w.Sound s) (hcode : .block code ∈ s.written) {site : Site}
    (hsite : w.sites[(code.id, ip)]? = some site) : site.Sound s w.classes code ip := by
  obtain ⟨c, hc, hid, hs⟩ := h.sites _ _ hsite
  exact h.stock.apart c code hc hcode hid ▸ hs

/-- An instruction may be specialized to what is right for it. -/
theorem specialize (h : w.Sound s) (hcode : .block code ∈ s.written) {site : Site}
    (hsite : site.Sound s w.classes code ip)
    (hcell : ∀ cell, site = .global cell → ∀ name, code.reads? ip = some name →
      w.globals.find? name = some cell) :
    (w.specialize (code.id, ip) site).Sound s := by
  -- No other code has the number, so the other sites are not concerned.
  refine { h with
    sites := fun l site' hl => ?_
    cells := fun l cell hl c name hc hid hread => ?_ }
  · rw [World.specialize, Std.HashMap.getElem?_insert] at hl
    split at hl
    · rename_i heq
      cases hl
      exact ⟨code, hcode, congrArg Prod.fst (eq_of_beq heq), by rwa [← eq_of_beq heq]⟩
    · exact h.sites l site' hl
  · rw [World.specialize, Std.HashMap.getElem?_insert] at hl
    split at hl
    · rename_i heq
      cases hl
      rw [← eq_of_beq heq] at hid hread
      rw [h.stock.apart c code hc hcode hid] at hread
      exact hcell cell rfl name hread
    · exact h.cells l cell hl c name hc hid hread

theorem noteQuickened (h : w.Sound s) (message : String) (fields : List (String × String)) :
    (w.noteQuickened message fields).Sound s :=
  (h.count _).note _

end World.Sound

theorem World.Agrees.noteQuickened (w : World) (message : String)
    (fields : List (String × String)) : w.Agrees (w.noteQuickened message fields) :=
  (World.Agrees.count w _).trans (.note _ _)

/-- What comes of a message of an instruction. -/
structure Sent (s : Stock) (w : World) (selector : Selector) (arguments : List Value)
    (r : Job × World) : Prop where
  job : w.Fulfils selector arguments r.1
  world : r.2.Sound s
  agrees : w.Agrees r.2

/-- A world with the same classes and the same heap comes to the same. -/
theorem Sent.of_eq {r : Job × World} (h : Sent s w' selector arguments r)
    (hc : w'.classes = w.classes) (hh : w'.heap = w.heap) : Sent s w selector arguments r where
  job := by
    obtain ⟨job, w''⟩ := r
    have hw : w.Agrees w' := .of_eq hc hh
    cases h.job with
    | found => exact hw.fulfils (.inl rfl)
    | lookup => exact .lookup
    | shortcut hp hop hjob =>
      exact .shortcut (hw.lookup _ _ ▸ hp) hop (Shortcut.apply?_job _ _ hh ▸ hjob)
  world := h.world
  agrees := (World.Agrees.of_eq hc hh).trans h.agrees

/-- What an instruction is specialized to first is right for it. -/
theorem firstSite_sound {code : Code} {ip : Nat} (hsend : code.sends? ip = some (false, selector))
    (h : w.Sound s) (v : Value) : (w.firstSite selector v).Sound s w.classes code ip := by
  rw [World.firstSite]
  split
  · rename_i op hop
    refine ⟨selector, hsend, h.classOf_lt v, le_rfl, fun _ => ?_⟩
    rw [World.shortcut?] at hop
    split at hop
    · exact hop
    · cases hop
  · refine ⟨hsend, ?_⟩
    rintro _ ⟨⟩ e ⟨⟩

section Sites

variable {code : Code} {ip : Nat} (hcode : .block code ∈ s.written)
  (hsend : code.sends? ip = some (false, selector))

include hcode hsend

theorem throughChain_sent (h : w.Sound s) {c : Chain} (hc : c.Sound s w.classes)
    (hs : c.selector = selector) (arguments : List Value) :
    Sent s w selector arguments (throughChain (code.id, ip) c arguments w) := by
  have hd := Chain.dispatch_dispatched h hc arguments
  rw [throughChain]
  dsimp only
  refine ⟨?_, hd.world.specialize hcode ⟨?_, hd.agrees.classes ▸ hd.chain⟩ nofun, ?_⟩
  · exact (World.Agrees.refl w).fulfils (hs ▸ hd.job)
  · rw [hd.selector, hs, hsend]
  · exact hd.agrees.trans (.of_eq rfl rfl)

theorem missShortcut_sent (h : w.Sound s) (op : Shortcut) (arguments : List Value) :
    Sent s w selector arguments (missShortcut (code.id, ip) op selector arguments w) := by
  unfold missShortcut
  extract_lets w₁ w₂
  have h₂ : w₂.Sound s := World.Sound.note (h.count _ : w₁.Sound s) _
  have hnew : (Chain.new selector).Sound s w₂.classes := by
    rintro _ ⟨⟩ e ⟨⟩
  exact (throughChain_sent hcode hsend h₂ hnew rfl arguments).of_eq
    (w₁.note_classes _) (w₁.note_heap _)

theorem throughSite_sent (h : w.Sound s) {site : Site} (hsite : site.Sound s w.classes code ip)
    (ha : s.Covers arguments) :
    Sent s w selector arguments (throughSite (code.id, ip) site selector arguments w) := by
  unfold throughSite
  cases site with
  | chain c =>
    obtain ⟨hs, hc⟩ := hsite
    rw [hs] at hsend
    cases hsend
    exact throughChain_sent hcode hs h hc rfl arguments
  | eager op cls epoch arity =>
    obtain ⟨selector', hs, -, -, htarget⟩ := hsite
    obtain rfl : selector' = selector := by
      rw [hs] at hsend
      cases hsend
      rfl
    dsimp only
    split
    · rename_i hguard
      simp only [Bool.and_eq_true, decide_eq_true_eq] at hguard
      split
      · rename_i done hdone
        -- In the present epoch the guard has found a primitive with this shortcut.
        obtain ⟨i, hi, hshortcut⟩ := Option.bind_eq_some_iff.1 (htarget hguard.1)
        rw [← hguard.2] at hi
        cases i with
        | method c => cases hshortcut
        | primitive p =>
          refine ⟨.shortcut hi hshortcut (by rw [hdone]; rfl), ?_, Shortcut.apply?_agrees hdone⟩
          exact (Shortcut.apply?_upheld h ha hdone).2
      · exact missShortcut_sent hcode hsend h op arguments
    · exact missShortcut_sent hcode hsend h op arguments
  -- An instruction that sends a message reads no global and is not to super.
  | global cell =>
    obtain ⟨name, hread⟩ := Option.isSome_iff_exists.1 hsite
    exact absurd ((Code.sends?_of_reads? hread).symm.trans hsend) (by simp)
  | super target epoch =>
    obtain ⟨selector', holder, hs, -⟩ := hsite
    exact absurd (hs.symm.trans hsend) (by simp)

/-- Whatever an instruction that sends a message is specialized to, if to anything, it comes to
    what the message asks for. -/
theorem sendFrom_sent (h : w.Sound s) (ha : s.Covers arguments) :
    Sent s w selector arguments (sendFrom (code.id, ip) selector arguments w) := by
  rw [sendFrom]
  split
  · rename_i site hsite
    exact throughSite_sent hcode hsend h (h.site hcode hsite) ha
  · extract_lets site w₁
    have h₁ : w₁.Sound s := h.noteQuickened _ _
    have hc : w₁.classes = w.classes := World.note_classes _ _
    have hsite : site.Sound s w₁.classes code ip := hc ▸ firstSite_sound hsend h _
    have hcell : ∀ cell, site ≠ .global cell := by
      intro cell
      dsimp only [site]
      rw [World.firstSite]
      split <;> nofun
    have h₂ := h₁.specialize hcode hsite fun cell he => absurd he (hcell cell)
    exact (throughSite_sent hcode hsend h₂ hsite ha).of_eq hc
      (World.note_heap _ _)

end Sites

theorem Machine.send_sound (h : w.Sound s) (ha : s.Covers arguments) (selector : Selector) :
    (Machine.send selector arguments w).Sound s := by
  rw [Machine.send]
  split
  · rename_i i hi
    exact ⟨World.Sound.lookup h.classes hi, ha⟩
  · exact ⟨ha.argument 0, ha.drop 1⟩

theorem World.Fulfils.sound {job : Job} (hj : w.Fulfils selector arguments job) (h : w.Sound s)
    (ha : s.Covers arguments) : job.Sound s := by
  cases hj with
  | found => exact Machine.send_sound h ha selector
  | lookup => exact ha
  | shortcut _ _ hjob =>
    obtain ⟨r, hr, rfl⟩ := Option.map_eq_some_iff.1 hjob
    exact (Shortcut.apply?_upheld h ha hr).1

/-! ### Messages to super -/

/-- A job that does what a message to super asks for. -/
inductive World.FulfilsSuper (w : World) (code : Code) (selector : Selector)
    (arguments : List Value) : Job → Prop
  /-- It calls what a lookup finds above the class of the method, or reports that nothing is. -/
  | found {holder : ClassRef} : code.holder = some holder →
      FulfilsSuper w code selector arguments
        (superJob (w.lookupAbove holder selector) selector arguments)
  /-- The class of the method is gone. -/
  | gone {inProgress : List Node} : w.holderOf inProgress code = none →
      FulfilsSuper w code selector arguments (.fail (.superOutsideClass selector))

/-- What comes of a message of an instruction to super. -/
structure SentSuper (s : Stock) (w : World) (code : Code) (selector : Selector)
    (arguments : List Value) (r : Job × World) : Prop where
  job : w.FulfilsSuper code selector arguments r.1
  world : r.2.Sound s
  agrees : w.Agrees r.2

section Super

variable {code : Code} {ip : Nat} (hcode : .block code ∈ s.written)
  (hsend : code.sends? ip = some (true, selector))

include hcode hsend

/-- A binding of the present epoch is what a lookup finds above the class of the method. -/
theorem boundSuper?_eq (h : w.Sound s) {target : Option Invokable}
    (ht : w.boundSuper? (code.id, ip) = some target) :
    ∃ holder, code.holder = some holder ∧ target = w.lookupAbove holder selector := by
  rw [World.boundSuper?] at ht
  split at ht
  · rename_i bound epoch hsite
    obtain ⟨selector', holder, hs, hholder, -, htarget⟩ := h.site hcode hsite
    rw [hs] at hsend
    cases hsend
    split at ht
    · rename_i hepoch
      cases ht
      exact ⟨holder, hholder, htarget hepoch⟩
    · cases ht
  · cases ht

/-- Binding a message to super comes to what it asks for. -/
theorem bindSuper_sent (h : w.Sound s) (arguments : List Value) (inProgress : List Node) :
    SentSuper s w code selector arguments
      (bindSuper (code.id, ip) code selector arguments inProgress w) := by
  rw [bindSuper]
  split
  · rename_i hnone
    exact ⟨.gone hnone, h, .refl w⟩
  · rename_i holder hh
    extract_lets target w₁
    -- The class of the method is there still.
    have hholder : code.holder = some holder := (Option.filter_eq_some_iff.1 hh).1
    have h₁ : w₁.Sound s := h.noteQuickened _ _
    have hw₁ : w.Agrees w₁ := .noteQuickened w _ _
    refine ⟨.found hholder,
      h₁.specialize hcode ⟨selector, holder, hsend, hholder, le_rfl, ?_⟩ nofun,
      hw₁.trans (.of_eq rfl rfl)⟩
    intro _
    rw [hw₁.classes]
    rfl

end Super

end Parley
