import Mathlib
import Parley.Machine.Access
import Parley.Proofs.Caches

/-!
# Races for the caches

Machines that share a world send messages and install methods at the same time, one access after
another in any order (`Race.Comes`). When no installation is half done, what was remembered in the
present epoch is what a lookup finds now (`Race.Comes.right`): every entry of a dispatch chain and
every binding of a message to super, and every shortcut but those that were found *late*, when the
epoch was read after the method had been replaced.

The epoch that all installations begun so far lead to (`Race.settled`) is the measure of this.
Who reads it knows that every method begun to be installed is in the tables, and nobody has
inserted another one as long as it is not passed. An entry or a binding is made of a lookup that
begins after the epoch was read, so that it is right or will be out of date. A shortcut is looked
up before the epoch is read, and a whole installation fits between the two
(`Race.shortcut_outlived`).
-/

namespace Parley

/-! ### Races -/

/-- The instruction that a task is about to bind to a shortcut which a lookup does not find any
    more. -/
def Task.late (w : World) : Task → List Location
  | .found m .shortcut target =>
    match target.bind Invokable.shortcut? with
    | some op =>
      if (w.lookup m.receiver m.selector).bind Invokable.shortcut? = some op then [] else [m.place]
    | none => []
  | _ => []

/-- Machines at a world that they share, with their settings and what each is about to do. -/
structure Race where
  shared : Shared
  machines : List (Settings × Task)

namespace Race

variable (r : Race)

/-- Machines that are about to do nothing. -/
def start (w : World) (settings : List Settings) : Race :=
  ⟨.ofWorld w, settings.map fun cfg => (cfg, .ended none)⟩

/-- A machine that was idle is given a task. -/
def begin (i : Nat) (cfg : Settings) (t : Task) : Race :=
  { r with machines := r.machines.set i (cfg, t) }

/-- Whether a task has to wait for a chain that another machine has locked. -/
def blocks (t : Task) : Bool :=
  t.wants.isSome && r.machines.any fun x => x.2.holds = t.wants

/-- A machine makes its next access, or waits. -/
def act (i : Nat) : Race :=
  match r.machines[i]? with
  | some (cfg, t) =>
    if r.blocks t then r
    else
      let (t, shared) := t.act cfg r.shared
      ⟨shared, r.machines.set i (cfg, t)⟩
  | none => r

/-- The instruction that a machine is about to bind too late. -/
def late (i : Nat) : List Location :=
  match r.machines[i]? with
  | some (_, t) => t.late r.shared.world
  | none => []

/-- A message that an instruction of a code sends. -/
def Sends (w : World) (m : Sending) (toSuper : Bool) (code : Code) : Prop :=
  w.Wrote code ∧ code.id = m.place.1 ∧ code.sends? m.place.2 = some (toSuper, m.selector)

/-- What comes of machines that were idle at a world: each may install methods and send messages
    one after another, whatever the others do. The instructions that were bound to a shortcut too
    late are kept account of. -/
inductive Comes (w : World) (settings : List Settings) : List Location → Race → Prop
  | start : Comes w settings [] (start w settings)
  /-- A machine begins to install a method or primitive: it is inserted in the table of a class. -/
  | insert {late : List Location} {r : Race} {cfg : Settings} {job : Option Job} (i : Nat)
      (c : ClassRef) {x : Invokable} : Comes w settings late r →
        r.machines[i]? = some (cfg, .ended job) → w.Offers x →
          Comes w settings late
            { r.begin i cfg .advance with shared := r.shared.insert c x }
  /-- A machine begins to send the message of an instruction. -/
  | send {late : List Location} {r : Race} {cfg : Settings} {job : Option Job} (i : Nat)
      {m : Sending} {code : Code} : Comes w settings late r →
        r.machines[i]? = some (cfg, .ended job) → Sends w m false code →
          Comes w settings late (r.begin i cfg (.send m))
  /-- A machine begins to send a message to super; the class of the method may be gone. -/
  | sendSuper {late : List Location} {r : Race} {cfg : Settings} {job : Option Job} (i : Nat)
      {m : Sending} {code : Code} (holder : Option ClassRef) : Comes w settings late r →
        r.machines[i]? = some (cfg, .ended job) → Sends w m true code →
          (∀ c, holder = some c → code.holder = some c) →
            Comes w settings late (r.begin i cfg (.sendSuper m holder))
  /-- A machine goes on by one access. -/
  | act {late : List Location} {r : Race} (i : Nat) : Comes w settings late r →
      Comes w settings (r.late i ++ late) (r.act i)

end Race

variable {s s' : Stock} {w w' : World} {late late' : List Location} {r : Shared} {m : Sending}
  {n : Nat}

/-! ### The epoch that is coming -/

/-- Whether a task is half an installation. -/
def Task.installs : Task → Bool
  | .advance => true
  | _ => false

/-- Whether a task is done with. -/
def Task.isOver : Task → Bool
  | .ended _ => true
  | _ => false

/-- A world with nothing specialized, `n` epochs ahead. -/
def World.ahead (w : World) (n : Nat) : World :=
  { w with
    classes := { w.classes with epoch := w.classes.epoch + n }
    sites := ∅ }

namespace Race

/-- How many installations are half done. -/
def pending (r : Race) : Nat :=
  r.machines.countP fun x => x.2.installs

/-- The world in the epoch that it will be in when all installations are done that were begun. -/
def settled (r : Race) : World :=
  r.shared.world.ahead r.pending

end Race

namespace World

theorem classOf_ahead (w : World) (n : Nat) (v : Value) : (w.ahead n).classOf v = w.classOf v := by
  cases v with
  | bool b => cases b <;> rfl
  | _ => rfl

theorem lookup_ahead (w : World) (n : Nat) (v : Value) (selector : Selector) :
    (w.ahead n).lookup v selector = w.lookup v selector := by
  rw [lookup, lookup, classOf_ahead]
  rfl

theorem guardOf_ahead (w : World) (n : Nat) (v : Value) : (w.ahead n).guardOf v = w.guardOf v := by
  unfold guardOf
  split
  · rfl
  · rw [classOf_ahead]

theorem ahead_migrate (w : World) (n : Nat) (v : Value) :
    (w.migrate v).ahead n = (w.ahead n).migrate v := by
  cases v <;> rfl

theorem ahead_advance (w : World) (n : Nat) :
    World.ahead { w with classes := w.classes.advance } n = w.ahead (n + 1) := by
  simp only [ahead, ClassTable.advance, Nat.add_assoc, Nat.add_comm 1 n]

theorem Sound.ahead_zero (h : w.Sound s) : (w.ahead 0).Sound s :=
  { h with
    sites := fun l site hl => by simp [ahead] at hl
    cells := fun l cell hl => by simp [ahead] at hl }

end World

/-! ### What is right in the coming epoch -/

/-- A world and its stock at a later time: in a later epoch, or with all lookups as they were. -/
structure World.Forward (w : World) (s : Stock) (w' : World) (s' : Stock) : Prop where
  le : s.Le s'
  later : w.classes.Later w'.classes s.classes
  written : s'.written = s.written
  agrees : w'.classes.epoch = w.classes.epoch → w.Agrees w'

/-- A message of an instruction of the stock, and the class above which it is looked up if it is
    to super. -/
def Sending.Sound (m : Sending) (s : Stock) (toSuper : Bool) (above : Option ClassRef) : Prop :=
  ∃ code, .block code ∈ s.written ∧ code.id = m.place.1 ∧
    code.sends? m.place.2 = some (toSuper, m.selector) ∧ ∀ c, above = some c → code.holder = some c

/-- What an instruction may be specialized to, or a shortcut that was found late. -/
def Stock.Trusts (s : Stock) (t : ClassTable) (late : List Location) (l : Location) (site : Site) :
    Prop :=
  ∃ code, .block code ∈ s.written ∧ code.id = l.1 ∧
    ((site.shortcut?.isSome → l ∉ late) → site.Sound s t code l.2)

/-- Shared tables in which instructions are specialized to what they may be, and have had such
    chains. -/
structure Shared.Sound (r : Shared) (s : Stock) (t : ClassTable) (late : List Location) : Prop where
  sites : ∀ (l : Location) (site : Site), r.world.sites[l]? = some site → s.Trusts t late l site
  former : ∀ l n c, r.former l n = some c → s.Trusts t late l (.chain c)

/-- What was found for a quest: what a lookup finds, if the epoch that was read is the coming
    one. -/
def Quest.Sound (q : Quest) (m : Sending) (s : Stock) (w : World) (target : Option Invokable) :
    Prop :=
  match q with
  | .shortcut => m.Sound s false none
  | .entry _ epoch entries _ => m.Sound s false none ∧
      Chain.Sound ⟨m.selector, .cached entries⟩ s w.classes ∧ epoch ≤ w.classes.epoch ∧
        (epoch = w.classes.epoch → target = w.lookup m.receiver m.selector)
  | .binding holder epoch => m.Sound s true (some holder) ∧ epoch ≤ w.classes.epoch ∧
      (epoch = w.classes.epoch → target = w.lookupAbove holder m.selector)

/-- What a machine holds in hand while it is about to do something. -/
def Task.Sound (s : Stock) (w : World) (late : List Location) : Task → Prop
  | .ended _ | .advance => True
  | .send m | .attempt m _ _ _ | .renew m | .ask m _ => m.Sound s false none
  | .look m q left => q.Sound m s w (left.findSome? fun c => w.classes.own? c m.selector)
  | .found m q target => q.Sound m s w target
  | .fill m site => m.Sound s false none ∧ s.Trusts w.classes late m.place site
  | .date m _ state => m.Sound s false none ∧ Chain.Sound ⟨m.selector, state⟩ s w.classes
  | .search m _ state epoch => m.Sound s false none ∧
      Chain.Sound ⟨m.selector, state⟩ s w.classes ∧ epoch ≤ w.classes.epoch
  | .lock m _ epoch => m.Sound s false none ∧ epoch ≤ w.classes.epoch
  | .sendSuper m holder => m.Sound s true holder
  | .bound m holder epoch => m.Sound s true holder ∧ epoch ≤ w.classes.epoch

/-- A race in which nothing remembered is wrong in the coming epoch but what was found late. -/
structure Race.Sound (r : Race) (s : Stock) (late : List Location) : Prop where
  world : r.settled.Sound s
  shared : r.shared.Sound s r.settled.classes late
  tasks : ∀ x ∈ r.machines, x.2.Sound s r.settled late

/-! ### Later times -/

namespace World.Forward

theorem refl (w : World) (s : Stock) : w.Forward s w s :=
  ⟨.refl s, ⟨le_rfl, fun _ _ _ _ => rfl, fun _ _ _ => rfl⟩, rfl, fun _ => .refl w⟩

/-- An epoch that is not later than a world was and is the present one is the one it was in. -/
theorem eq_of_le (hf : w.Forward s w' s') {epoch : Nat} (hle : epoch ≤ w.classes.epoch)
    (he : epoch = w'.classes.epoch) : epoch = w.classes.epoch ∧ w.Agrees w' :=
  have hepoch : w'.classes.epoch = w.classes.epoch := le_antisymm (he ▸ hle) hf.later.epoch_le
  ⟨he.trans hepoch, hf.agrees hepoch⟩

variable (hf : w.Forward s w' s')

include hf

theorem le_epoch {epoch : Nat} (h : epoch ≤ w.classes.epoch) : epoch ≤ w'.classes.epoch :=
  h.trans hf.later.epoch_le

theorem sending {toSuper : Bool} {above : Option ClassRef} (h : m.Sound s toSuper above) :
    m.Sound s' toSuper above := by
  rw [Sending.Sound, hf.written]
  exact h

theorem trusts (hw : w.Sound s) {l : Location} {site : Site} (h : s.Trusts w.classes late l site)
    (hlate : late ⊆ late') : s'.Trusts w'.classes late' l site := by
  obtain ⟨code, hcode, hid, hsite⟩ := h
  refine ⟨code, hf.written.symm ▸ hcode, hid, fun htimely => ?_⟩
  exact (hsite fun hs hl => htimely hs (hlate hl)).later hf.le hf.later hw.stock hw.classes hcode

theorem quest {q : Quest} {target target' : Option Invokable} (h : q.Sound m s w target)
    (ht : w.Agrees w' → target' = target) : q.Sound m s' w' target' := by
  cases q with
  | shortcut => exact hf.sending h
  | entry n epoch entries slot =>
    obtain ⟨hm, hc, hle, hfound⟩ := h
    refine ⟨hf.sending hm, hc.later hf.le hf.later, hf.le_epoch hle, fun he => ?_⟩
    obtain ⟨he, ha⟩ := hf.eq_of_le hle he
    rw [ht ha, hfound he, ha.lookup]
  | binding holder epoch =>
    obtain ⟨hm, hle, hfound⟩ := h
    refine ⟨hf.sending hm, hf.le_epoch hle, fun he => ?_⟩
    obtain ⟨he, ha⟩ := hf.eq_of_le hle he
    rw [ht ha, hfound he, World.lookupAbove, World.lookupAbove, ha.classes]

/-- What a machine holds in hand stays right. -/
theorem task (hw : w.Sound s) {t : Task} (h : t.Sound s w late) (hlate : late ⊆ late') :
    t.Sound s' w' late' := by
  cases t with
  | ended job => trivial
  | advance => trivial
  | send m => exact hf.sending h
  | attempt m op cls epoch => exact hf.sending h
  | renew m => exact hf.sending h
  | ask m n => exact hf.sending h
  | look m q left =>
    refine hf.quest h fun ha => ?_
    rw [ha.classes]
  | found m q target => exact hf.quest h fun _ => rfl
  | fill m site => exact ⟨hf.sending h.1, hf.trusts hw h.2 hlate⟩
  | date m n state => exact ⟨hf.sending h.1, h.2.later hf.le hf.later⟩
  | search m n state epoch =>
    exact ⟨hf.sending h.1, h.2.1.later hf.le hf.later, hf.le_epoch h.2.2⟩
  | lock m n epoch => exact ⟨hf.sending h.1, hf.le_epoch h.2⟩
  | sendSuper m holder => exact hf.sending h
  | bound m holder epoch => exact ⟨hf.sending h.1, hf.le_epoch h.2⟩

theorem shared (hw : w.Sound s) (h : r.Sound s w.classes late) (hlate : late ⊆ late') :
    r.Sound s' w'.classes late' :=
  ⟨fun l site hl => hf.trusts hw (h.sites l site hl) hlate,
    fun l n c hc => hf.trusts hw (h.former l n c hc) hlate⟩

end World.Forward

/-- Bringing an instance up to date leaves lookups as they were. -/
theorem World.forward_migrate (w : World) (s : Stock) (v : Value) : w.Forward s (w.migrate v) s :=
  have ha := w.migrate_agrees v
  ⟨.refl s, by rw [ha.classes]; exact (Forward.refl w s).later, rfl, fun _ => ha⟩

/-- An installation leads to a later epoch. -/
theorem World.Sound.forward_install (h : w.Sound s) (c : ClassRef) {i : Invokable}
    (hi : i.Sound s) :
    ∃ s', World.Sound { w with classes := w.classes.install c i } s' ∧
      w.Forward s { w with classes := w.classes.install c i } s' := by
  have hg := ClassTable.install_grown h.classes c hi
  refine ⟨_, h.setClasses hg (h.stock.of_le hg.le hg.written), hg.le, hg.later, hg.written, ?_⟩
  -- The epoch is not the same.
  intro he
  exact absurd he (Nat.succ_ne_self _)

/-! ### Shared tables -/

theorem Stock.Trusts.chain {t : ClassTable} {l : Location} {c : Chain}
    (h : s.Trusts t late l (.chain c)) :
    ∃ code, .block code ∈ s.written ∧ code.id = l.1 ∧
      code.sends? l.2 = some (false, c.selector) ∧ c.Sound s t := by
  obtain ⟨code, hcode, hid, hsite⟩ := h
  exact ⟨code, hcode, hid, hsite nofun⟩

theorem Sending.Sound.trusts_chain {t : ClassTable} (h : m.Sound s false none) {state : ChainState}
    (hc : Chain.Sound ⟨m.selector, state⟩ s t) :
    s.Trusts t late m.place (.chain ⟨m.selector, state⟩) := by
  obtain ⟨code, hcode, hid, hsend, -⟩ := h
  exact ⟨code, hcode, hid, fun _ => ⟨hsend, hc⟩⟩

theorem Chain.new_sound (selector : Selector) (s : Stock) (t : ClassTable) :
    (Chain.new selector).Sound s t := by
  rintro _ ⟨⟩ e ⟨⟩

namespace Shared.Sound

variable {t : ClassTable} (h : r.Sound s t late)

include h

theorem specialize {l : Location} {site : Site} (hs : s.Trusts t late l site) :
    (r.specialize l site).Sound s t late := by
  refine ⟨fun l' site' hl => ?_, h.former⟩
  rw [Shared.specialize, World.specialize, Std.HashMap.getElem?_insert] at hl
  split at hl
  · rename_i heq
    cases hl
    exact eq_of_beq heq ▸ hs
  · exact h.sites l' site' hl

theorem publish {l : Location} {c : Chain} (hc : s.Trusts t late l (.chain c)) (n : Nat) :
    (r.publish l n c).Sound s t late := by
  rw [Shared.publish]
  split
  · exact h.specialize hc
  · refine ⟨h.sites, fun l' n' c' hc' => ?_⟩
    dsimp only at hc'
    split at hc'
    · rename_i heq
      cases hc'
      exact heq.1 ▸ hc
    · exact h.former l' n' c' hc'

theorem renew (hm : m.Sound s false none) : (r.renew m.place m.selector).Sound s t late := by
  refine ⟨(h.specialize (hm.trusts_chain (Chain.new_sound _ s t))).sites, fun l n c hc => ?_⟩
  rw [Shared.renew] at hc
  dsimp only at hc
  split at hc
  · rename_i heq
    -- The chain that the instruction had is kept.
    obtain ⟨site, hl, hsite⟩ := Option.bind_eq_some_iff.1 hc
    cases site with
    | chain c' =>
      cases hsite
      exact heq.1 ▸ h.sites _ _ hl
    | _ => cases hsite
  · exact h.former l n c hc

/-- The chain of an instruction that sends a message is for that message. -/
theorem chain (hr : s.Regular) (hm : m.Sound s false none) (n : Nat) :
    Chain.Sound ⟨m.selector, (r.chain m.place n m.selector).state⟩ s t := by
  have htrusts : ∀ c, s.Trusts t late m.place (.chain c) →
      Chain.Sound ⟨m.selector, c.state⟩ s t := fun c hc => by
    obtain ⟨code, hcode, hid, hsend, hc⟩ := hc.chain
    obtain ⟨code', hcode', hid', hsend', -⟩ := hm
    -- Only one code has the number.
    obtain rfl := hr.apart code code' hcode hcode' (hid.trans hid'.symm)
    have hselector : c.selector = m.selector := by simpa [hsend] using hsend'
    exact hselector ▸ hc
  rw [Shared.chain]
  split
  · cases hl : r.world.sites[m.place]?.bind Site.chain? with
    | none => exact Chain.new_sound _ s t
    | some c =>
      obtain ⟨site, hl, hsite⟩ := Option.bind_eq_some_iff.1 hl
      cases site with
      | chain c' =>
        cases hsite
        exact htrusts _ (h.sites _ _ hl)
      | _ => cases hsite
  · cases hl : r.former m.place n with
    | none => exact Chain.new_sound _ s t
    | some c => exact htrusts c (h.former _ _ _ hl)

end Shared.Sound

/-! ### Single accesses -/

/-- What an access leaves, `n` installations being half done before and after it. -/
structure Acted (s : Stock) (w : World) (n : Nat) (late : List Location) (out : Task × Shared) :
    Prop where
  world : (out.2.world.ahead n).Sound s
  forward : w.Forward s (out.2.world.ahead n) s
  shared : out.2.Sound s (out.2.world.ahead n).classes late
  task : out.1.Sound s (out.2.world.ahead n) late
  installs : out.1.installs = false

/-- An access that changes at most what instructions are specialized to, or were before. -/
theorem Acted.of_sites (h : (r.world.ahead n).Sound s) {r' : Shared} {t : Task}
    (hw : r'.world.ahead n = r.world.ahead n) (hr : r'.Sound s (r.world.ahead n).classes late)
    (ht : t.Sound s (r.world.ahead n) late) (hi : t.installs = false) :
    Acted s (r.world.ahead n) n late (t, r') := by
  refine ⟨?_, ?_, ?_, ?_, hi⟩
  all_goals
    dsimp only
    rw [hw]
  exacts [h, .refl _ s, hr, ht]

theorem ahead_publish (r : Shared) (l : Location) (i : Nat) (c : Chain) :
    (r.publish l i c).world.ahead n = r.world.ahead n := by
  rw [Shared.publish]
  split <;> rfl

/-- What a message comes to by what its instruction is specialized to. -/
theorem Shared.along_sound (r : Shared) (hm : m.Sound s false none) {site : Site}
    (hs : s.Trusts w.classes late m.place site) :
    (r.along m site).Sound s w late ∧ (r.along m site).installs = false := by
  cases site with
  | chain c =>
    obtain ⟨code, hcode, hid, hsend, -⟩ := hs.chain
    exact ⟨⟨code, hcode, hid, hsend, nofun⟩, rfl⟩
  | eager op cls epoch arity => exact ⟨hm, rfl⟩
  | _ => exact ⟨trivial, rfl⟩

theorem Shared.unbound_sound (r : Shared) {holder : Option ClassRef} (hm : m.Sound s true holder)
    {epoch : Nat} (he : epoch ≤ (r.world.ahead n).classes.epoch) :
    (r.unbound m epoch holder).Sound s (r.world.ahead n) late ∧
      (r.unbound m epoch holder).installs = false := by
  cases holder with
  | none => exact ⟨trivial, rfl⟩
  | some holder =>
    refine ⟨⟨hm, he, fun _ => ?_⟩, rfl⟩
    rw [World.lookupAbove_eq]
    rfl

section Accesses

variable (h : (r.world.ahead n).Sound s) (hr : r.Sound s (r.world.ahead n).classes late)
  (cfg : Settings)

include h hr

theorem Task.send_acted (hm : m.Sound s false none) :
    Acted s (r.world.ahead n) n late (Task.act cfg r (.send m)) := by
  rw [Task.act]
  split
  · rename_i site hsite
    obtain ⟨ht, hi⟩ := r.along_sound hm (hr.sites _ _ hsite)
    exact .of_sites h rfl hr ht hi
  · split
    · exact .of_sites h rfl hr hm rfl
    · exact .of_sites h rfl hr ⟨hm, hm.trusts_chain (Chain.new_sound _ s _)⟩ rfl

theorem Task.look_acted {q : Quest} {left : List ClassRef}
    (hq : q.Sound m s (r.world.ahead n)
      (left.findSome? fun c => (r.world.ahead n).classes.own? c m.selector)) :
    Acted s (r.world.ahead n) n late (Task.act cfg r (.look m q left)) := by
  cases left with
  | nil => exact .of_sites h rfl hr hq rfl
  | cons c left =>
    rw [Task.act]
    split
    · rename_i i hi
      have hi : (r.world.ahead n).classes.own? c m.selector = some i := hi
      rw [List.findSome?_cons, hi] at hq
      exact .of_sites h rfl hr hq rfl
    · rename_i hi
      have hi : (r.world.ahead n).classes.own? c m.selector = none := hi
      rw [List.findSome?_cons, hi] at hq
      exact .of_sites h rfl hr hq rfl

/-- A shortcut that is not found late is what a lookup finds in the epoch that is read. -/
theorem Task.bind_acted (hm : m.Sound s false none) {target : Option Invokable}
    (hlate : Task.late r.world (.found m .shortcut target) ⊆ late) :
    Acted s (r.world.ahead n) n late (Quest.conclude m target r .shortcut) := by
  rw [Quest.conclude]
  split
  · rename_i op hop
    refine .of_sites h rfl hr ⟨hm, ?_⟩ rfl
    obtain ⟨code, hcode, hid, hsend, -⟩ := hm
    refine ⟨code, hcode, hid, fun htimely => ?_⟩
    have hlookup : (r.world.lookup m.receiver m.selector).bind Invokable.shortcut? = some op := by
      by_contra hne
      refine htimely rfl (hlate ?_)
      simp only [Task.late, hop, if_neg hne, List.mem_singleton]
    rw [← r.world.classOf_ahead n]
    refine ⟨m.selector, hsend, h.classOf_lt _, Nat.le_add_right _ n, fun _ => ?_⟩
    rw [← r.world.lookup_ahead n] at hlookup
    exact hlookup
  · exact .of_sites h rfl hr ⟨hm, hm.trusts_chain (Chain.new_sound _ s _)⟩ rfl

/-- An entry is made of what was found. -/
theorem Task.enter_acted {i epoch : Nat} {entries : List Entry} {slot : Option Nat}
    {target : Option Invokable}
    (hq : Quest.Sound (.entry i epoch entries slot) m s (r.world.ahead n) target) :
    Acted s (r.world.ahead n) n late (Quest.conclude m target r (.entry i epoch entries slot)) := by
  obtain ⟨hm, hc, hle, hfound⟩ := hq
  have he : Entry.Sound ⟨r.world.guardOf m.receiver, epoch, .ofLookup target⟩ s
      (r.world.ahead n).classes m.selector := by
    rw [← r.world.guardOf_ahead n]
    refine ⟨h.guardOf_within _, hle, fun he => ?_⟩
    rw [h.guardOf_cls, hfound he]
    rfl
  refine .of_sites h (ahead_publish r _ _ _) (hr.publish (hm.trusts_chain ?_) i) trivial rfl
  rintro _ ⟨⟩ e' he'
  cases slot with
  | none =>
    rcases List.mem_append.1 he' with he' | he'
    · exact hc entries rfl e' he'
    · exact List.mem_singleton.1 he' ▸ he
  | some slot =>
    rcases List.mem_or_eq_of_mem_set he' with he' | rfl
    · exact hc entries rfl e' he'
    · exact he

theorem Task.bindSuper_acted {holder : ClassRef} {epoch : Nat} {target : Option Invokable}
    (hq : Quest.Sound (.binding holder epoch) m s (r.world.ahead n) target) :
    Acted s (r.world.ahead n) n late (Quest.conclude m target r (.binding holder epoch)) := by
  obtain ⟨⟨code, hcode, hid, hsend, hholder⟩, hle, hfound⟩ := hq
  refine .of_sites h rfl (hr.specialize ⟨code, hcode, hid, fun _ => ?_⟩) trivial rfl
  exact ⟨m.selector, holder, hsend, hholder holder rfl, hle, hfound⟩

theorem Task.fill_acted (hm : m.Sound s false none) {site : Site}
    (hs : s.Trusts (r.world.ahead n).classes late m.place site) :
    Acted s (r.world.ahead n) n late (Task.act cfg r (.fill m site)) := by
  rw [Task.act]
  split
  · rename_i site' hsite
    obtain ⟨ht, hi⟩ := r.along_sound hm (hr.sites _ _ hsite)
    exact .of_sites h rfl hr ht hi
  · obtain ⟨ht, hi⟩ := r.along_sound hm hs
    exact .of_sites h rfl (hr.specialize hs) ht hi

theorem Task.attempt_acted (hm : m.Sound s false none) (op : Shortcut) (cls : ClassRef)
    (epoch : Nat) :
    Acted s (r.world.ahead n) n late (Task.act cfg r (.attempt m op cls epoch)) := by
  rw [Task.act]
  split
  · split
    · exact .of_sites h rfl hr trivial rfl
    · exact .of_sites h rfl hr hm rfl
  · exact .of_sites h rfl hr hm rfl

theorem Task.search_acted {i : Nat} {state : ChainState} {epoch : Nat}
    (ht : Task.Sound s (r.world.ahead n) late (.search m i state epoch)) :
    Acted s (r.world.ahead n) n late (Task.act cfg r (.search m i state epoch)) := by
  obtain ⟨hm, hc, hle⟩ := ht
  cases state with
  | megamorphic => exact .of_sites h rfl hr trivial rfl
  | cached entries =>
    rw [Task.act]
    split
    · exact .of_sites h rfl hr trivial rfl
    · split
      · exact .of_sites h rfl hr ⟨hm, hle⟩ rfl
      -- The receiver is brought up to date, which changes no lookup.
      · have hf := (r.world.ahead n).forward_migrate s m.receiver
        have hw := r.world.ahead_migrate n m.receiver
        rw [← hw] at hf
        have hr' := hf.shared h hr (List.Subset.refl late)
        refine ⟨hw ▸ h.migrate m.receiver, hf, ⟨?_, hr'.former⟩, hf.sending hm, rfl⟩
        have hsites : (r.world.migrate m.receiver).sites = r.world.sites := by
          cases m.receiver <;> rfl
        show ∀ l site, (r.world.migrate m.receiver).sites[l]? = some site → _
        rw [hsites]
        exact hr'.sites

theorem Task.lock_acted (hm : m.Sound s false none) (i : Nat) {epoch : Nat}
    (he : epoch ≤ (r.world.ahead n).classes.epoch) :
    Acted s (r.world.ahead n) n late (Task.act cfg r (.lock m i epoch)) := by
  have hc := hr.chain h.stock hm i
  -- A lookup that begins now will find what a lookup finds now.
  have hlook : ∀ entries slot, (r.chain m.place i m.selector).state = .cached entries →
      Task.Sound s (r.world.ahead n) late (.look m (.entry i epoch entries slot)
        (r.path m.receiver)) := fun entries slot hstate => by
    refine ⟨hm, hstate ▸ hc, he, fun _ => ?_⟩
    rw [r.world.lookup_ahead]
    rfl
  rw [Task.act]
  split
  · exact .of_sites h rfl hr trivial rfl
  · rename_i entries hstate
    cases Chain.miss entries (r.world.guardOf m.receiver) epoch cfg.cacheSize with
    | found t => exact .of_sites h rfl hr trivial rfl
    | refresh slot => exact .of_sites h rfl hr (hlook entries _ hstate) rfl
    | full =>
      refine .of_sites h (ahead_publish r _ _ _) (hr.publish (hm.trusts_chain ?_) i) trivial rfl
      rintro _ ⟨⟩
    | grow => exact .of_sites h rfl hr (hlook entries _ hstate) rfl

theorem Task.bound_acted {holder : Option ClassRef} (hm : m.Sound s true holder) {epoch : Nat}
    (he : epoch ≤ (r.world.ahead n).classes.epoch) :
    Acted s (r.world.ahead n) n late (Task.act cfg r (.bound m holder epoch)) := by
  obtain ⟨hunbound, hi⟩ := r.unbound_sound hm he
  rw [Task.act]
  split
  · split
    · exact .of_sites h rfl hr trivial rfl
    · exact .of_sites h rfl hr hunbound hi
  · exact .of_sites h rfl hr hunbound hi

/-- An access that does not end an installation leaves right what was right. -/
theorem Task.Sound.acted {t : Task} (ht : t.Sound s (r.world.ahead n) late)
    (hlate : t.late r.world ⊆ late) (hi : t.installs = false) :
    Acted s (r.world.ahead n) n late (t.act cfg r) := by
  cases t with
  | ended job => exact .of_sites h rfl hr trivial rfl
  | advance => cases hi
  | send m => exact send_acted h hr cfg ht
  | look m q left => exact look_acted h hr cfg ht
  | found m q target =>
    cases q with
    | shortcut => exact bind_acted h hr ht hlate
    | entry i epoch entries slot => exact enter_acted h hr ht
    | binding holder epoch => exact bindSuper_acted h hr ht
  | fill m site => exact fill_acted h hr cfg ht.1 ht.2
  | attempt m op cls epoch => exact attempt_acted h hr cfg ht op cls epoch
  | renew m => exact .of_sites h rfl (hr.renew ht) ht rfl
  | ask m i => exact .of_sites h rfl hr ⟨ht, hr.chain h.stock ht i⟩ rfl
  | date m i state => exact .of_sites h rfl hr ⟨ht.1, ht.2, Nat.le_add_right _ n⟩ rfl
  | search m i state epoch => exact search_acted h hr cfg ht
  | lock m i epoch => exact lock_acted h hr cfg ht.1 i ht.2
  | sendSuper m holder => exact .of_sites h rfl hr ⟨ht, Nat.le_add_right _ n⟩ rfl
  | bound m holder epoch => exact bound_acted h hr cfg ht.1 ht.2

end Accesses

/-! ### Whole races -/

namespace Race

/-- A machine whose turn it was counts as before, or for the installation that it began or ended. -/
theorem countP_set {ms : List (Settings × Task)} {i : Nat} {x : Settings × Task}
    (hx : ms[i]? = some x) (y : Settings × Task) :
    (ms.set i y).countP (·.2.installs) + x.2.installs.toNat =
      ms.countP (·.2.installs) + y.2.installs.toNat := by
  obtain ⟨hlt, rfl⟩ := List.getElem?_eq_some_iff.1 hx
  have hpos : ms[i].2.installs → 0 < ms.countP (·.2.installs) := fun hi =>
    List.countP_pos_iff.2 ⟨_, List.getElem_mem hlt, hi⟩
  rw [List.countP_set hlt]
  cases hi : ms[i].2.installs <;> cases hj : y.2.installs <;> simp_all

variable {r : Race} {i : Nat} {cfg : Settings}

theorem pending_begin {t : Task} (ht : r.machines[i]? = some (cfg, t)) (hi : t.installs = false)
    (t' : Task) : (r.begin i cfg t').pending = r.pending + t'.installs.toNat := by
  have hset := countP_set ht (cfg, t')
  rw [hi] at hset
  exact hset

namespace Sound

variable (h : r.Sound s late)

include h

/-- One machine's task is another one, and the shared tables may have changed. -/
theorem step {shared : Shared} {t : Task} {n : Nat}
    (hn : (r.machines.set i (cfg, t)).countP (·.2.installs) = n)
    (hw : (shared.world.ahead n).Sound s') (hf : r.settled.Forward s (shared.world.ahead n) s')
    (hr : shared.Sound s' (shared.world.ahead n).classes late')
    (ht : t.Sound s' (shared.world.ahead n) late') (hlate : late ⊆ late') :
    Race.Sound ⟨shared, r.machines.set i (cfg, t)⟩ s' late' := by
  have hsettled : Race.settled ⟨shared, r.machines.set i (cfg, t)⟩ = shared.world.ahead n := by
    rw [settled, pending, hn]
  refine ⟨hsettled ▸ hw, hsettled ▸ hr, fun x hx => ?_⟩
  rw [hsettled]
  rcases List.mem_or_eq_of_mem_set hx with hx | rfl
  · exact hf.task h.world (h.tasks x hx) hlate
  · exact ht

theorem task {t : Task} (ht : r.machines[i]? = some (cfg, t)) : t.Sound s r.settled late :=
  h.tasks _ (List.mem_of_getElem? ht)

/-- An idle machine begins something that is no installation. -/
theorem begin {t : Task} {job : Option Job} (hi : r.machines[i]? = some (cfg, .ended job))
    (ht : t.Sound s r.settled late) (hidle : t.installs = false) :
    (r.begin i cfg t).Sound s late := by
  have hn := pending_begin hi rfl t
  rw [hidle] at hn
  exact h.step hn h.world (.refl _ s) h.shared ht (List.Subset.refl late)

/-- An idle machine inserts a method. -/
theorem insert {job : Option Job} (hi : r.machines[i]? = some (cfg, .ended job)) (c : ClassRef)
    {x : Invokable} (hx : x.Sound s) :
    ∃ s', Race.Sound { r.begin i cfg .advance with shared := r.shared.insert c x } s' late ∧
      s'.written = s.written := by
  obtain ⟨s', hw, hf⟩ := h.world.forward_install c hx
  have hn := pending_begin hi rfl .advance
  have hr := hf.shared h.world h.shared (List.Subset.refl late)
  exact ⟨s', h.step hn hw hf ⟨hr.sites, hr.former⟩ trivial (List.Subset.refl late), hf.written⟩

/-- A machine makes an access. -/
theorem act (i : Nat) : (r.act i).Sound s (r.late i ++ late) := by
  have hlate : late ⊆ r.late i ++ late := List.subset_append_right _ _
  have hstay : r.Sound s (r.late i ++ late) :=
    have hf := World.Forward.refl r.settled s
    ⟨h.world, hf.shared h.world h.shared hlate, fun x hx => hf.task h.world (h.tasks x hx) hlate⟩
  rw [Race.act]
  split
  · rename_i cfg t ht
    split
    · exact hstay
    · have htask := hstay.task ht
      cases hi : t.installs with
      | true =>
        -- The epoch that was coming is there.
        cases t with
        | advance =>
          have hn : (r.machines.set i (cfg, .ended none)).countP (·.2.installs) + 1 = r.pending :=
            countP_set ht (cfg, .ended none)
          have hw : r.shared.advance.world.ahead
              ((r.machines.set i (cfg, .ended none)).countP (·.2.installs)) = r.settled := by
            rw [settled, ← hn]
            exact World.ahead_advance _ _
          exact hstay.step rfl (hw ▸ h.world) (hw ▸ .refl _ s)
            (hw ▸ ⟨hstay.shared.sites, hstay.shared.former⟩) trivial (List.Subset.refl _)
        | _ => cases hi
      | false =>
        have htimely : t.late r.shared.world ⊆ r.late i ++ late := by
          rw [Race.late, ht]
          exact List.subset_append_left _ _
        have ha := htask.acted h.world hstay.shared cfg htimely hi
        have hn := countP_set ht (cfg, (t.act cfg r.shared).1)
        rw [hi, ha.installs] at hn
        exact hstay.step hn ha.world ha.forward ha.shared ha.task (List.Subset.refl _)
  · exact hstay

end Sound

theorem start_sound (hw : w.Sound s) (settings : List Settings) :
    (Race.start w settings).Sound s [] := by
  have hpending : (Race.start w settings).pending = 0 := by
    rw [pending, List.countP_eq_zero]
    intro x hx
    obtain ⟨cfg, -, rfl⟩ := List.mem_map.1 hx
    exact Bool.false_ne_true
  refine ⟨?_, ⟨fun l site hl => ?_, nofun⟩, fun x hx => ?_⟩
  · rw [settled, hpending]
    exact hw.ahead_zero
  · obtain ⟨code, hcode, hid, hsite⟩ := hw.sites l site hl
    refine ⟨code, hcode, hid, fun _ => ?_⟩
    rw [settled, hpending]
    exact hsite
  · obtain ⟨cfg, -, rfl⟩ := List.mem_map.1 hx
    trivial

/-- What is right in the coming epoch is so throughout a race. -/
theorem Comes.sound {settings : List Settings} (hw : w.Sound s) (h : Comes w settings late r) :
    ∃ s', r.Sound s' late ∧ s'.written = s.written := by
  -- The codes are those that there were.
  have hsends : ∀ {m toSuper code above s'}, s'.written = s.written → Sends w m toSuper code →
      (∀ c, above = some c → code.holder = some c) → m.Sound s' toSuper above :=
    fun hs ⟨hcode, hid, hsend⟩ hholder => ⟨_, hs ▸ hw.wrote_iff.1 hcode, hid, hsend, hholder⟩
  induction h with
  | start => exact ⟨s, start_sound hw settings, rfl⟩
  | @insert _ _ _ _ i c x _ hi hx ih =>
    obtain ⟨s', hr, hs⟩ := ih
    have hsound : x.Sound s' := by
      cases x with
      | method code => exact .inr (hs ▸ hw.wrote_iff.1 hx)
      | primitive p => trivial
    obtain ⟨s'', hr', hs'⟩ := hr.insert hi c hsound
    exact ⟨s'', hr', hs'.trans hs⟩
  | send i _ hi hsend ih =>
    obtain ⟨s', hr, hs⟩ := ih
    exact ⟨s', hr.begin hi (hsends hs hsend nofun) rfl, hs⟩
  | sendSuper i holder _ hi hsend hholder ih =>
    obtain ⟨s', hr, hs⟩ := ih
    exact ⟨s', hr.begin hi (hsends hs hsend hholder) rfl, hs⟩
  | act i _ ih =>
    obtain ⟨s', hr, hs⟩ := ih
    exact ⟨s', hr.act i, hs⟩

/-- A race in which no installation is half done. -/
def Rests (r : Race) : Prop :=
  ∀ x ∈ r.machines, x.2.installs = false

/-- Nothing is half done when all is over. -/
theorem Rests.of_over (h : r.machines.all (·.2.isOver)) : r.Rests := by
  intro x hx
  have hover := List.all_eq_true.1 h x hx
  cases hx : x.2 with
  | ended job => rfl
  | _ =>
    rw [hx] at hover
    cases hover

theorem Rests.settled (h : r.Rests) : r.settled = r.shared.world.ahead 0 := by
  have hpending : r.pending = 0 := List.countP_eq_zero.2 fun x hx => by simp [h x hx]
  rw [Race.settled, hpending]

end Race

/-! ### What is right in the present epoch -/

theorem Chain.Right.of_ahead {c : Chain} (h : c.Right (w.ahead 0)) : c.Right w := by
  intro entries hstate e he hepoch v hv
  rw [← w.lookup_ahead 0]
  exact h entries hstate e he hepoch v ((w.guardOf_ahead 0 v).trans hv)

theorem Site.Right.of_ahead {site : Site} {code : Code} {ip : Nat}
    (h : site.Right (w.ahead 0) code ip) : site.Right w code ip := by
  cases site with
  | global cell => exact h
  | chain c => exact ⟨h.1, h.2.of_ahead⟩
  | super target epoch => exact h
  | eager op cls epoch arity =>
    obtain ⟨selector, hsend, hright⟩ := h
    refine ⟨selector, hsend, fun hepoch v hv => ?_⟩
    rw [← w.lookup_ahead 0]
    exact hright hepoch v ((w.classOf_ahead 0 v).trans hv)

/-! ### Two races -/

namespace Race

/-- Machines make accesses in turn. -/
def turns : List Nat → List Location × Race → List Location × Race
  | [], x => x
  | i :: is, (late, r) => turns is (r.late i ++ late, r.act i)

theorem Comes.turns {settings : List Settings} (is : List Nat) {late : List Location} {r : Race}
    (h : Comes w settings late r) :
    Comes w settings (Race.turns is (late, r)).1 (Race.turns is (late, r)).2 := by
  induction is generalizing late r with
  | nil => exact h
  | cons i is ih => exact ih (h.act i)

/-- A code with two instructions that ask whether something is nil. -/
def inquiry : Code :=
  .mk 0 "inquire" none false ⟨#[18, 0, 18, 0], #[.selector "isNil"], #[], #[], 0, []⟩

/-- A machine on a world with that code and a primitive for the message. -/
def arena : Machine :=
  let w := (World.bare .standard .standard .kept false).installPrimitive Core.object "isNil" .isNil
    (some .isNil)
  ⟨{ w.adopt inquiry with supply := { w.supply with code := w.supply.code + 1 } }, .answer .nil, []⟩

/-- The message that one of the instructions sends to nil. -/
def inquiring (ip : Nat) : Sending :=
  ⟨(0, ip), "isNil", [.nil]⟩

theorem arena_reachable : arena.Reachable := by
  let w := (World.bare .standard .standard .kept false).installPrimitive Core.object "isNil" .isNil
    (some .isNil)
  have hchanges : (World.bare .standard .standard .kept false).Changes w :=
    World.installPrimitive_changes _ _ _ _ _
  refine ((Machine.Reachable.bare .standard .standard .kept false).changes hchanges).change
    (World.Change.assemble "inquire" false nofun fun l hl => ?_)
  rw [show l = .selector "isNil" by simpa using hl]
  trivial

theorem inquiring_sends {ip : Nat} (h : ip = 0 ∨ ip = 2) :
    Sends arena.world (inquiring ip) false inquiry := by
  refine ⟨⟨inquiry, List.mem_cons_self, .self _⟩, rfl, ?_⟩
  rcases h with rfl | rfl <;> rfl

/-- Another primitive for the message, with the same shortcut. -/
def successor : Invokable :=
  .primitive ⟨1, "isNil", .isNil, some .isNil⟩

/-- Settings that let instructions have chains only. -/
def chained : Settings :=
  { Settings.standard with eager := false }

/-- One machine binds its instruction to a shortcut, another one makes an entry of a chain and then
    a new one, and a third one installs a primitive while both are at it. -/
def overlapping : List Location × Race :=
  let r := start arena.world [.standard, chained, .standard]
  let (late, r) := turns [0, 0, 0] ([], r.begin 0 .standard (.send (inquiring 0)))
  let (late, r) := turns [1, 1, 1, 1, 1, 1] (late, r.begin 1 chained (.send (inquiring 2)))
  let r := { r.begin 2 .standard .advance with shared := r.shared.insert Core.nil successor }
  let (late, r) := turns [1, 2, 1, 0, 0, 0] (late, r)
  turns [1, 1, 1, 1, 1, 1, 1] (late, r.begin 1 chained (.send (inquiring 2)))

theorem overlapping_comes :
    Comes arena.world [.standard, chained, .standard] overlapping.1 overlapping.2 := by
  have hstart : Comes arena.world [.standard, chained, .standard] [] _ := .start
  have hask := (hstart.send 0 (by cbv : _ = some (Settings.standard, Task.ended none))
    (inquiring_sends (.inl rfl))).turns [0, 0, 0]
  have hchain := (hask.send 1 (by cbv : _ = some (chained, Task.ended none))
    (inquiring_sends (.inr rfl))).turns [1, 1, 1, 1, 1, 1]
  have hinsert := (hchain.insert 2 Core.nil (by cbv : _ = some (Settings.standard, Task.ended none))
    (show arena.world.Offers successor from trivial)).turns [1, 2, 1, 0, 0, 0]
  have hagain := hinsert.send 1 (by cbv : _ =
    some (chained, Task.ended (some (.invoke successor [.nil]))))
    (inquiring_sends (.inr rfl))
  exact hagain.turns [1, 1, 1, 1, 1, 1, 1]

theorem overlapping_isOver : overlapping.2.machines.all (·.2.isOver) = true := by
  cbv

/-- No shortcut is late, since the new primitive has the same one. -/
theorem overlapping_timely : overlapping.1 = [] := by
  cbv

theorem overlapping_eager : overlapping.2.shared.world.sites[(0, 0)]? =
    some (.eager .isNil Core.nil overlapping.2.shared.world.classes.epoch 0) := by
  cbv

theorem overlapping_chain : overlapping.2.shared.world.sites[(0, 2)]? =
    some (.chain ⟨"isNil", .cached [⟨.ofClass Core.nil, 2, .invoke successor⟩]⟩) := by
  cbv

theorem overlapping_epoch : overlapping.2.shared.world.classes.epoch = 2 := by
  cbv

/-- Another primitive for the message, without a shortcut. -/
def supplanter : Invokable :=
  .primitive ⟨1, "isNil", .refuse, none⟩

/-- A shortcut is looked up before the epoch is read, and a primitive is installed in between. -/
def overtaken : List Location × Race :=
  let r := start arena.world [.standard, .standard]
  let (late, r) := turns [0, 0, 0] ([], r.begin 0 .standard (.send (inquiring 0)))
  let r := { r.begin 1 .standard .advance with shared := r.shared.insert Core.nil supplanter }
  turns [1, 0, 0, 0] (late, r)

theorem overtaken_comes :
    Comes arena.world [.standard, .standard] overtaken.1 overtaken.2 := by
  have hstart : Comes arena.world [.standard, .standard] [] _ := .start
  have hask := (hstart.send 0 (by cbv : _ = some (Settings.standard, Task.ended none))
    (inquiring_sends (.inl rfl))).turns [0, 0, 0]
  have hinsert := hask.insert 1 Core.nil (by cbv : _ = some (Settings.standard, Task.ended none))
    (show arena.world.Offers supplanter from trivial)
  exact hinsert.turns [1, 0, 0, 0]

theorem overtaken_isOver : overtaken.2.machines.all (·.2.isOver) = true := by
  cbv

theorem overtaken_eager : overtaken.2.shared.world.sites[(inquiry.id, 0)]? =
    some (.eager .isNil Core.nil overtaken.2.shared.world.classes.epoch 0) := by
  cbv

theorem overtaken_lookup :
    (overtaken.2.shared.world.lookup .nil "isNil").bind Invokable.shortcut? = none := by
  cbv

/-! ### Whatever the order -/

variable {r : Race}

/-- Whatever machines on one world installed and sent at the same time: when no installation is half
    done, what is remembered in the present epoch is what a lookup finds now, by all instructions
    but those that were bound to a shortcut too late, by the chains that they had before, and by
    those that a host holds on to. -/
theorem Comes.right {m : Machine} (hm : m.Reachable) {settings : List Settings}
    (h : Comes m.world settings late r) (hrests : r.Rests) :
    (∀ code ip site, m.world.Wrote code → r.shared.world.sites[(code.id, ip)]? = some site →
      (site.shortcut?.isSome → (code.id, ip) ∉ late) → site.Right r.shared.world code ip) ∧
    (∀ l n c, r.shared.former l n = some c → c.Right r.shared.world) ∧
    ∀ c, .chain c ∈ r.shared.world.held → c.Right r.shared.world := by
  obtain ⟨s, hs⟩ := hm.sound
  obtain ⟨s', hr, hwritten⟩ := h.sound hs.world
  have hw := hr.world
  have hshared := hr.shared
  rw [hrests.settled] at hw hshared
  refine ⟨fun code ip site hcode hsite htimely => ?_, fun l n c hc => ?_, fun c hc => ?_⟩
  · obtain ⟨code', hcode', hid, hsound⟩ := hshared.sites _ _ hsite
    -- Only one code has the number.
    obtain rfl := hw.stock.apart code' code hcode'
      (hwritten ▸ hs.world.wrote_iff.1 hcode) hid
    exact (hw.site_right (hsound htimely)).of_ahead
  · obtain ⟨-, -, -, -, hsound⟩ := (hshared.former l n c hc).chain
    exact (hw.chain_right hsound).of_ahead
  · exact (hw.chain_right (hw.held _ hc)).of_ahead

/-- The shortcut and the new entry are of the present epoch, and lead to what a lookup finds. -/
theorem Comes.right_overlapping :
    let w := overlapping.2.shared.world
    overlapping.2.machines.all (·.2.isOver) ∧
    w.sites[(0, 0)]? = some (.eager .isNil Core.nil w.classes.epoch 0) ∧
    (w.lookup .nil "isNil").bind Invokable.shortcut? = some .isNil ∧
    ∃ e : Entry, w.sites[(0, 2)]? = some (.chain ⟨"isNil", .cached [e]⟩) ∧
      e.epoch = w.classes.epoch ∧ e.target = .ofLookup (w.lookup .nil "isNil") := by
  intro w
  obtain ⟨hright, -, -⟩ := overlapping_comes.right arena_reachable (.of_over overlapping_isOver)
  have hwrote : arena.world.Wrote inquiry := ⟨inquiry, List.mem_cons_self, .self _⟩
  obtain ⟨selector, hsend, hfinds⟩ := hright inquiry 0 _ hwrote overlapping_eager fun _ => by
    rw [overlapping_timely]
    exact List.not_mem_nil
  obtain ⟨-, hentries⟩ := hright inquiry 2 _ hwrote overlapping_chain nofun
  cases hsend
  exact ⟨overlapping_isOver, overlapping_eager, hfinds rfl .nil rfl, _, overlapping_chain,
    overlapping_epoch.symm, hentries _ rfl _ List.mem_cons_self overlapping_epoch.symm .nil rfl⟩

/-- All is over, and the instruction is bound in the present epoch to a shortcut that a lookup does
    not find. -/
theorem shortcut_outlived : arena.Reachable ∧
    Comes arena.world [.standard, .standard] overtaken.1 overtaken.2 ∧
    overtaken.2.machines.all (·.2.isOver) ∧
    ∃ site, overtaken.2.shared.world.sites[(inquiry.id, 0)]? = some site ∧
      ¬ site.Right overtaken.2.shared.world inquiry 0 := by
  refine ⟨arena_reachable, overtaken_comes, overtaken_isOver, _, overtaken_eager, ?_⟩
  rintro ⟨selector, hsend, hfinds⟩
  cases hsend
  have hfound := hfinds rfl .nil rfl
  rw [overtaken_lookup] at hfound
  cases hfound

end Race

end Parley
