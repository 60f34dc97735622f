import Parley.Machine.Access
import Parley.Proofs.Chains

/-!
# Machines that are left alone

A machine that no other one comes between does by single accesses what it does at once: it comes
to the same job, leaves the same classes and instances, and instructions are specialized to the
same.

* `ClassTable.install_eq_advance`: installations;
* `Task.send_alone`: messages of instructions;
* `Task.sendSuper_alone`: messages to super.
-/

namespace Parley

open Relation

variable {r : Shared} {w w' : World} {m : Sending} {cfg : Settings} {l : Location} {n : Nat}

/-! ### Single accesses -/

/-- A task and the shared tables that come of others by accesses of one machine alone. -/
def Task.Leads (cfg : Settings) : Task × Shared → Task × Shared → Prop :=
  ReflTransGen fun x y => y = x.1.act cfg x.2

/-- One access. -/
theorem Task.Leads.step {x y : Task × Shared} (h : Task.Leads cfg (x.1.act cfg x.2) y) :
    Task.Leads cfg x y :=
  .head rfl h

/-- A lookup asks one table after another. -/
theorem Task.look_leads (cfg : Settings) (m : Sending) (q : Quest) (r : Shared)
    (left : List ClassRef) :
    Task.Leads cfg (.look m q left, r)
      (.found m q (left.findSome? fun c => r.world.classes.own? c m.selector), r) := by
  induction left with
  | nil => exact .step .refl
  | cons c left ih =>
    refine .step ?_
    rw [List.findSome?_cons]
    dsimp only [act]
    cases r.world.classes.own? c m.selector with
    | some i => exact .refl
    | none => exact ih

/-! ### Tables that are alike -/

/-- A world with nothing counted and no events. -/
def World.hushed (w : World) : World :=
  { w with
    events := []
    thread := { w.thread with statistics := .zero } }

namespace World

@[simp] theorem hushed_count (w : World) (f : Statistics → Statistics) :
    (w.count f).hushed = w.hushed :=
  rfl

@[simp] theorem hushed_note (w : World) (e : Event) : (w.note e).hushed = w.hushed := by
  rw [note]
  split <;> rfl

@[simp] theorem hushed_noteQuickened (w : World) (message : String)
    (fields : List (String × String)) : (w.noteQuickened message fields).hushed = w.hushed :=
  hushed_note _ _

theorem hushed_apply? {op : Shortcut} {arguments : List Value} {out : Job × World}
    (h : op.apply? arguments w = some out) : out.2.hushed = w.hushed := by
  rcases op.apply?_world h with hw | ⟨op, a, b, hw⟩
  · rw [hw]
  · rw [hw]
    unfold Numbers.notePromotion
    split
    · split
      · split
        · exact hushed_note _ _
        · rfl
      · rfl
    · rfl

end World

/-- Shared tables that are those of a world. -/
structure Shared.Shows (r : Shared) (w : World) : Prop where
  classes : r.world.classes = w.classes
  heap : r.world.heap = w.heap
  sites : ∀ l : Location, r.world.sites[l]? = w.sites[l]?

theorem World.sites_specialize (w : World) (l : Location) (site : Site) (k : Location) :
    (w.specialize l site).sites[k]? = if l == k then some site else w.sites[k]? := by
  rw [World.specialize, Std.HashMap.getElem?_insert]

namespace Shared.Shows

theorem of_world (w : World) : (Shared.ofWorld w).Shows w :=
  ⟨rfl, rfl, fun _ => rfl⟩

/-- A world that differs in what is counted and reported. -/
theorem of_hushed (h : r.Shows w) (hw : w'.hushed = w.hushed) : r.Shows w' :=
  ⟨h.classes.trans (congrArg World.classes hw.symm :), h.heap.trans (congrArg World.heap hw.symm :),
    fun l => (h.sites l).trans (congrArg (·.sites[l]?) hw.symm :)⟩

theorem specialize_of_hushed {l : Location} {site : Site} (h : r.Shows (w.specialize l site))
    (hw : w'.hushed = w.hushed) : r.Shows (w'.specialize l site) :=
  h.of_hushed (congrArg (·.specialize l site) hw :)

/-- What is specialized already may be written again. -/
theorem specialize_self {site : Site} (h : r.Shows w) (hl : r.world.sites[l]? = some site) :
    r.Shows (w.specialize l site) := by
  refine ⟨h.classes, h.heap, fun k => ?_⟩
  rw [World.sites_specialize, h.sites]
  split
  · rename_i heq
    rw [← eq_of_beq heq, ← h.sites, hl]
  · rfl

theorem specialize (h : r.Shows w) (l : Location) (site : Site) :
    (r.specialize l site).Shows (w.specialize l site) := by
  refine ⟨h.classes, h.heap, fun k => ?_⟩
  rw [Shared.specialize, World.sites_specialize, World.sites_specialize, h.sites]

variable (h : r.Shows w)

include h

theorem agrees : w.Agrees r.world :=
  .of_eq h.classes h.heap

theorem guardOf (v : Value) : r.world.guardOf v = w.guardOf v := by
  unfold World.guardOf
  split
  · rw [h.heap]
  · rw [h.agrees.classOf]

theorem isOutdated (v : Value) : r.world.isOutdated v = w.isOutdated v := by
  cases v with
  | object o => simp only [World.isOutdated, h.heap, h.classes]
  | _ => rfl

theorem migrate (v : Value) : (r.migrate v).Shows (w.migrate v) := by
  cases v with
  | object o =>
    refine ⟨h.classes, ?_, h.sites⟩
    simp only [Shared.migrate, World.migrate, h.heap, h.classes]
  | _ => exact h

end Shared.Shows

/-! ### Chains -/

namespace Chain

/-- The entry that a lookup makes for a receiver. -/
def entryFor (s : Selector) (v : Value) (w : World) : Entry :=
  ⟨w.guardOf v, w.classes.epoch, .ofLookup (w.lookup v s)⟩

theorem newEntry_eq (s : Selector) (v : Value) (w : World) :
    (newEntry s v w).1 = entryFor s v w ∧ (newEntry s v w).2.hushed = w.hushed := by
  unfold newEntry entryFor
  dsimp only
  split
  · rename_i i hi
    rw [hi]
    exact ⟨rfl, rfl⟩
  · rename_i hi
    rw [hi]
    exact ⟨rfl, w.hushed_note _⟩

/-- What a miss comes to, given the entry that a lookup makes, and the chain afterwards. -/
def outcome (s : Selector) (entries : List Entry) (arguments : List Value) (e : Entry) :
    Miss → Job × Chain
  | .found t => (t.job s arguments, ⟨s, .cached entries⟩)
  | .refresh slot => (e.target.job s arguments, ⟨s, .cached (entries.set slot e)⟩)
  | .full => (.send s arguments, ⟨s, .megamorphic⟩)
  | .grow => (e.target.job s arguments, ⟨s, .cached (entries ++ [e])⟩)

/-- What comes of a message that no entry matches. -/
def missed (s : Selector) (entries : List Entry) (arguments : List Value) (w : World) :
    Job × Chain :=
  let v := argument arguments 0
  outcome s entries arguments (entryFor s v w)
    (miss entries (w.guardOf v) w.classes.epoch w.settings.cacheSize)

theorem specialize_eq (s : Selector) (entries : List Entry) (arguments : List Value) (w : World) :
    ((specialize s entries arguments w).1, (specialize s entries arguments w).2.1) =
        missed s entries arguments w ∧
      (specialize s entries arguments w).2.2.hushed = w.hushed := by
  unfold specialize missed
  rw [headD_eq_argument]
  extract_lets w₁ v w₂
  obtain ⟨he, hw⟩ := newEntry_eq s v w₁
  have hcount : w₁.hushed = w.hushed := rfl
  have hmiss : miss entries (w₁.guardOf v) w₁.classes.epoch w₁.settings.cacheSize =
    miss entries (w.guardOf v) w.classes.epoch w.settings.cacheSize := rfl
  have hentry : entryFor s v w₁ = entryFor s v w := rfl
  rw [hentry] at he
  rw [hmiss]
  generalize newEntry s v w₁ = made at he hw
  obtain ⟨made, w₃⟩ := made
  subst he
  cases miss entries (w.guardOf v) w.classes.epoch w.settings.cacheSize with
  | found t => exact ⟨rfl, hcount⟩
  | refresh slot => exact ⟨rfl, (World.hushed_note _ _).trans (hw.trans hcount)⟩
  | full => exact ⟨rfl, (World.hushed_note _ _).trans hcount⟩
  | grow => exact ⟨rfl, (World.hushed_note _ _).trans (hw.trans hcount)⟩

/-- Whether a message goes through a chain once more. -/
theorem again?_cached (s : Selector) (entries : List Entry) (arguments : List Value) (w : World) :
    again? ⟨s, .cached entries⟩ arguments w =
      match hit? entries (w.guardOf (argument arguments 0)) w.classes.epoch with
      | some _ => none
      | none =>
        if entries.isEmpty || !w.isOutdated (argument arguments 0) then none
        else some (w.migrate (argument arguments 0)) := by
  simp only [again?, cached?, headD_eq_argument]
  cases hit? entries (w.guardOf (argument arguments 0)) w.classes.epoch <;> rfl

theorem answer_cached (s : Selector) (entries : List Entry) (arguments : List Value) (w : World) :
    answer ⟨s, .cached entries⟩ arguments w =
      match hit? entries (w.guardOf (argument arguments 0)) w.classes.epoch with
      | some t => (t.job s arguments, ⟨s, .cached entries⟩, countHit w)
      | none => specialize s entries arguments w := by
  simp only [answer, cached?, headD_eq_argument]
  cases hit? entries (w.guardOf (argument arguments 0)) w.classes.epoch <;> rfl

end Chain

section Through

variable {c : Chain} {entries : List Entry}

namespace Shared.Shows

/-- The chain of an instruction is the one that it is specialized to. -/
theorem chain (h : r.Shows (w.specialize l (.chain c))) (s : Selector) :
    r.chain l (r.renewals l) s = c := by
  rw [Shared.chain, if_pos rfl, h.sites, World.sites_specialize, if_pos BEq.rfl]
  rfl

/-- A chain that is changed is the one of its instruction. -/
theorem publish (h : r.Shows (w.specialize l (.chain c))) (c' : Chain) :
    (r.publish l (r.renewals l) c').Shows (w.specialize l (.chain c')) := by
  rw [Shared.publish, if_pos rfl]
  refine ⟨h.classes, h.heap, fun k => ?_⟩
  rw [Shared.specialize, World.sites_specialize, World.sites_specialize, h.sites,
    World.sites_specialize]
  split <;> rfl

end Shared.Shows

/-- What is done about a miss makes the entry that a lookup makes. -/
theorem Shared.remedy_leads (cfg : Settings)
    (h : r.Shows (w.specialize m.place (.chain ⟨m.selector, .cached entries⟩)))
    (miss : Chain.Miss) :
    let out := Chain.outcome m.selector entries m.arguments
      (Chain.entryFor m.selector m.receiver w) miss
    ∃ r', Task.Leads cfg (r.remedy m (r.renewals m.place) w.classes.epoch entries miss)
        (.ended (some out.1), r') ∧ r'.Shows (w.specialize m.place (.chain out.2)) := by
  have hfound : ∀ slot, Task.Leads cfg
      (.look m (.entry (r.renewals m.place) w.classes.epoch entries slot) (r.path m.receiver), r)
      (Quest.conclude m (w.lookup m.receiver m.selector) r
        (.entry (r.renewals m.place) w.classes.epoch entries slot)) := fun slot => by
    have hlookup : ((r.path m.receiver).findSome? fun c => r.world.classes.own? c m.selector) =
        w.lookup m.receiver m.selector := h.agrees.lookup m.receiver m.selector
    refine (Task.look_leads cfg m _ r _).trans ?_
    rw [hlookup]
    exact Task.Leads.step .refl
  have hguard : r.world.guardOf m.receiver = w.guardOf m.receiver := h.guardOf _
  simp only [Quest.conclude, hguard] at hfound
  cases miss with
  | found t => exact ⟨r, .refl, h⟩
  | refresh slot => exact ⟨_, hfound (some slot), h.publish _⟩
  | full => exact ⟨_, .refl, h.publish _⟩
  | grow => exact ⟨_, hfound none, h.publish _⟩

/-- A chain that is locked comes to what a miss comes to. -/
theorem Task.lock_leads (hc : cfg.cacheSize = w.settings.cacheSize)
    (h : r.Shows (w.specialize m.place (.chain ⟨m.selector, .cached entries⟩))) :
    let out := Chain.missed m.selector entries m.arguments w
    ∃ r', Task.Leads cfg (.lock m (r.renewals m.place) w.classes.epoch, r)
        (.ended (some out.1), r') ∧ r'.Shows (w.specialize m.place (.chain out.2)) := by
  have hguard : r.world.guardOf m.receiver = w.guardOf m.receiver := h.guardOf _
  obtain ⟨r', hleads, hshows⟩ := Shared.remedy_leads cfg h
    (Chain.miss entries (w.guardOf m.receiver) w.classes.epoch w.settings.cacheSize)
  refine ⟨r', Task.Leads.step ?_, hshows⟩
  simp only [Task.act, h.chain, hguard, hc]
  exact hleads

/-- The chain is read, and then the epoch. -/
theorem Task.ask_search (cfg : Settings) {c : Chain}
    (h : r.Shows (w.specialize m.place (.chain c))) :
    Task.Leads cfg (.ask m (r.renewals m.place), r)
      (.search m (r.renewals m.place) c.state w.classes.epoch, r) := by
  have hepoch : r.world.classes.epoch = w.classes.epoch := congrArg _ h.classes
  refine Task.Leads.step ?_
  dsimp only [Task.act]
  rw [h.chain]
  refine Task.Leads.step ?_
  dsimp only [Task.act]
  rw [hepoch]
  exact .refl

/-- A message that goes through a chain once more does so with its receiver up to date. -/
theorem Task.ask_again (cfg : Settings) {c : Chain}
    (h : r.Shows (w.specialize m.place (.chain c)))
    (hagain : c.again? m.arguments w = some w') :
    w' = w.migrate m.receiver ∧ Task.Leads cfg (.ask m (r.renewals m.place), r)
      (.ask m (r.renewals m.place), r.migrate m.receiver) := by
  have hguard : r.world.guardOf m.receiver = w.guardOf m.receiver := h.guardOf _
  have hout : r.world.isOutdated m.receiver = w.isOutdated m.receiver := h.isOutdated _
  have hsearch := Task.ask_search cfg h
  obtain ⟨selector, entries | _⟩ := c
  · rw [Chain.again?_cached] at hagain
    split at hagain
    · cases hagain
    · rename_i hhit
      have hhit : Chain.hit? entries (w.guardOf m.receiver) w.classes.epoch = none := hhit
      split at hagain
      · cases hagain
      · rename_i hcond
        cases hagain
        refine ⟨rfl, hsearch.trans (Task.Leads.step ?_)⟩
        dsimp only [Task.act]
        rw [hguard, hout, hhit]
        dsimp only
        rw [show m.receiver = argument m.arguments 0 from rfl, if_neg hcond]
        exact .refl
  · cases hagain

/-- A chain that is not gone through once more comes to its answer. -/
theorem Task.ask_answer {c : Chain} (hc : cfg.cacheSize = w.settings.cacheSize)
    (h : r.Shows (w.specialize m.place (.chain c))) (hselector : m.selector = c.selector)
    (hlast : c.again? m.arguments w = none) :
    let out := c.answer m.arguments w
    ∃ r', Task.Leads cfg (.ask m (r.renewals m.place), r) (.ended (some out.1), r') ∧
      r'.Shows (out.2.2.specialize m.place (.chain out.2.1)) := by
  have hguard : r.world.guardOf m.receiver = w.guardOf m.receiver := h.guardOf _
  have hout : r.world.isOutdated m.receiver = w.isOutdated m.receiver := h.isOutdated _
  have hsearch := Task.ask_search cfg h
  obtain ⟨selector, state⟩ := c
  dsimp only at hselector
  subst hselector
  cases state with
  | megamorphic =>
    exact ⟨r, hsearch.trans (Task.Leads.step .refl), h.specialize_of_hushed rfl⟩
  | cached entries =>
    rw [Chain.again?_cached, show argument m.arguments 0 = m.receiver from rfl] at hlast
    rw [Chain.answer_cached, show argument m.arguments 0 = m.receiver from rfl]
    cases hhit : Chain.hit? entries (w.guardOf m.receiver) w.classes.epoch with
    | some t =>
      refine ⟨r, hsearch.trans (Task.Leads.step ?_), h.specialize_of_hushed rfl⟩
      dsimp only [Task.act]
      rw [hguard, hhit]
      exact .refl
    | none =>
      rw [hhit] at hlast
      dsimp only at hlast
      split at hlast
      · rename_i hcond
        -- No entry matches, so that the chain is locked.
        obtain ⟨hjob, hworld⟩ := Chain.specialize_eq m.selector entries m.arguments w
        obtain ⟨r', hleads, hshows⟩ := Task.lock_leads hc h
        rw [← hjob] at hleads hshows
        refine ⟨r', hsearch.trans (Task.Leads.step ?_), hshows.specialize_of_hushed hworld⟩
        dsimp only [Task.act]
        rw [hguard, hout, hhit]
        dsimp only
        rw [if_pos hcond]
        exact hleads
      · cases hlast

/-- A message goes through a chain by single accesses. -/
theorem Task.throughChain_leads {c : Chain} (hc : cfg.cacheSize = w.settings.cacheSize)
    (h : r.Shows (w.specialize m.place (.chain c))) (hselector : m.selector = c.selector)
    (hv : w.Has m.receiver) :
    let out := throughChain m.place c m.arguments w
    ∃ r', Task.Leads cfg (.ask m (r.renewals m.place), r) (.ended (some out.1), r') ∧
      r'.Shows out.2 := by
  rw [throughChain, Chain.dispatch_eq]
  cases hagain : c.again? m.arguments w with
  | none => exact Task.ask_answer hc h hselector hagain
  | some w₁ =>
    obtain ⟨rfl, hleads⟩ := Task.ask_again cfg h hagain
    have hlast : c.again? m.arguments (w.migrate m.receiver) = none := by
      have hv : w.Has (m.arguments.headD .nil) := by rwa [headD_eq_argument]
      have h := Chain.again?_migrate (c := c) hv
      rwa [headD_eq_argument] at h
    have hsettings : (w.migrate m.receiver).settings = w.settings := by
      cases m.receiver <;> rfl
    have h' : (r.migrate m.receiver).Shows
        ((w.migrate m.receiver).specialize m.place (.chain c)) := by
      have h' := h.migrate m.receiver
      cases hr : m.receiver <;> rw [hr] at h' <;> exact h'
    obtain ⟨r', hleads', hshows⟩ :=
      Task.ask_answer (hc.trans (congrArg Settings.cacheSize hsettings.symm)) h' hselector hlast
    exact ⟨r', hleads.trans hleads', hshows⟩

end Through

/-! ### Messages of instructions -/

/-- A shortcut that is given up makes room for a new chain. -/
theorem Task.renew_leads (hcfg : cfg.cacheSize = w.settings.cacheSize) (h : r.Shows w)
    (hv : w.Has m.receiver) (op : Shortcut) :
    let out := missShortcut m.place op m.selector m.arguments w
    ∃ r', Task.Leads cfg (.renew m, r) (.ended (some out.1), r') ∧ r'.Shows out.2 := by
  unfold missShortcut
  extract_lets w₁ w₂
  have hw : w₂.hushed = w.hushed := w₁.hushed_note _
  have hrenewals : r.renewals m.place + 1 =
      (r.renew m.place m.selector).renewals m.place := (if_pos rfl).symm
  have hnew : (r.renew m.place m.selector).Shows
    (w.specialize m.place (.chain (.new m.selector))) :=
    have hs := h.specialize m.place (.chain (.new m.selector))
    ⟨hs.classes, hs.heap, hs.sites⟩
  have hv₂ : w₂.Has m.receiver := fun o ho => by
    rw [show w₂.heap = w.heap from (congrArg World.heap hw :)]
    exact hv o ho
  have hcfg₂ : cfg.cacheSize = w₂.settings.cacheSize :=
    hcfg.trans (congrArg (·.settings.cacheSize) hw.symm)
  obtain ⟨r', hleads, hshows⟩ :=
    Task.throughChain_leads hcfg₂ (hnew.specialize_of_hushed hw) rfl hv₂
  refine ⟨r', Task.Leads.step ?_, hshows⟩
  dsimp only [Task.act]
  rw [hrenewals]
  exact hleads

/-- What a message comes to by what its instruction is specialized to. -/
theorem Task.along_leads (hcfg : cfg.cacheSize = w.settings.cacheSize) {site : Site}
    (h : r.Shows w) (hsite : r.world.sites[m.place]? = some site) (hv : w.Has m.receiver) :
    let out := throughSite m.place site m.selector m.arguments w
    ∃ r', Task.Leads cfg (r.along m site, r) (.ended (some out.1), r') ∧ r'.Shows out.2 := by
  cases site with
  | chain c =>
    exact Task.throughChain_leads (m := { m with selector := c.selector }) hcfg
      (h.specialize_self hsite) rfl hv
  | eager op cls epoch arity =>
    obtain ⟨r', hleads, hshows⟩ := Task.renew_leads hcfg h hv op
    have hcond : (epoch = r.world.classes.epoch && r.world.classOf m.receiver = cls) =
        (epoch = w.classes.epoch && w.classOf (argument m.arguments 0) = cls) := by
      rw [h.classes, h.agrees.classOf]
      rfl
    have hjob := op.apply?_job m.arguments h.heap
    rw [Shared.along, throughSite]
    split
    · rename_i htry
      cases hdone : op.apply? m.arguments w with
      | some done =>
        rw [hdone] at hjob
        obtain ⟨done', hdone', hfst⟩ := Option.map_eq_some_iff.1 hjob
        refine ⟨r, Task.Leads.step ?_, h.of_hushed (World.hushed_apply? hdone)⟩
        dsimp only [Task.act]
        rw [hcond, if_pos htry, hdone']
        dsimp only
        rw [show done'.1 = done.1 from hfst]
        exact .refl
      | none =>
        rw [hdone] at hjob
        refine ⟨r', Task.Leads.step ?_, hshows⟩
        dsimp only [Task.act]
        rw [hcond, if_pos htry, Option.map_eq_none_iff.1 hjob]
        exact hleads
    · rename_i htry
      refine ⟨r', Task.Leads.step ?_, hshows⟩
      dsimp only [Task.act]
      rw [hcond, if_neg htry]
      exact hleads
  | global cell => exact ⟨r, .refl, h⟩
  | super target epoch => exact ⟨r, .refl, h⟩

/-- What an instruction is specialized to first is found by single accesses. -/
theorem Task.first_leads (w : World) (m : Sending) (h : w.sites[m.place]? = none) :
    Task.Leads w.settings (.send m, .ofWorld w)
      (.fill m (w.firstSite m.selector m.receiver), .ofWorld w) := by
  refine Task.Leads.step ?_
  dsimp only [Task.act]
  rw [show (Shared.ofWorld w).world.sites[m.place]? = none from h, World.firstSite, World.shortcut?]
  dsimp only
  cases w.settings.eager with
  | false => exact .refl
  | true =>
    refine (Task.look_leads _ m .shortcut (.ofWorld w) _).trans (Task.Leads.step ?_)
    dsimp only [Task.act]
    have hfound : ((Shared.ofWorld w).path m.receiver).findSome? (fun c =>
      (Shared.ofWorld w).world.classes.own? c m.selector) = w.lookup m.receiver m.selector := rfl
    rw [Quest.conclude, if_pos rfl, hfound]
    cases (w.lookup m.receiver m.selector).bind Invokable.shortcut? <;> exact .refl

/-- A message of an instruction comes by single accesses to what it comes to at once. -/
theorem Task.send_alone (w : World) (m : Sending) (hv : w.Has m.receiver) :
    let out := sendFrom m.place m.selector m.arguments w
    ∃ r, Task.Leads w.settings (.send m, .ofWorld w) (.ended (some out.1), r) ∧ r.Shows out.2 := by
  rw [sendFrom]
  cases hsite : w.sites[m.place]? with
  | some site =>
    obtain ⟨r, hleads, hshows⟩ := Task.along_leads (rfl : w.settings.cacheSize = _) (.of_world w)
      hsite hv
    refine ⟨r, Task.Leads.step ?_, hshows⟩
    dsimp only [Task.act]
    rw [show (Shared.ofWorld w).world.sites[m.place]? = some site from hsite]
    exact hleads
  | none =>
    let site := w.firstSite m.selector m.receiver
    let w₁ := w.noteQuickened "quickened send"
      [("ip", m.place.2.repr), ("selector", m.selector), ("kind", site.opcode.name)]
    have hw : w₁.hushed = w.hushed := w.hushed_noteQuickened _ _
    have h : ((Shared.ofWorld w).specialize m.place site).Shows (w₁.specialize m.place site) :=
      (Shared.Shows.specialize (.of_world w) _ _).specialize_of_hushed hw
    have hv₁ : (w₁.specialize m.place site).Has m.receiver := fun o ho => by
      rw [show (w₁.specialize m.place site).heap = w.heap from (congrArg World.heap hw :)]
      exact hv o ho
    have hcfg : w.settings.cacheSize = (w₁.specialize m.place site).settings.cacheSize :=
      (congrArg (·.settings.cacheSize) hw.symm :)
    have hown : ((Shared.ofWorld w).specialize m.place site).world.sites[m.place]? = some site := by
      rw [Shared.specialize, World.sites_specialize, if_pos BEq.rfl]
    obtain ⟨r, hleads, hshows⟩ := Task.along_leads hcfg h hown hv₁
    refine ⟨r, (Task.first_leads w m hsite).trans (Task.Leads.step ?_), hshows⟩
    dsimp only [Task.act]
    rw [show (Shared.ofWorld w).world.sites[m.place]? = none from hsite]
    exact hleads

/-- A message to super that is not bound is looked up above the class of its method. -/
theorem Task.unbound_leads (cfg : Settings) (w : World) (m : Sending) (code : Code)
    (inProgress : List Node) :
    let out := bindSuper m.place code m.selector m.arguments inProgress w
    ∃ r, Task.Leads cfg
        ((Shared.ofWorld w).unbound m w.classes.epoch (w.holderOf inProgress code), .ofWorld w)
        (.ended (some out.1), r) ∧ r.Shows out.2 := by
  rw [bindSuper]
  cases w.holderOf inProgress code with
  | none => exact ⟨.ofWorld w, .refl, .of_world w⟩
  | some holder =>
    have hfound : (((Shared.ofWorld w).world.classes.pathAbove holder).findSome? fun c =>
        (Shared.ofWorld w).world.classes.own? c m.selector) = w.lookupAbove holder m.selector :=
      (w.lookupAbove_eq holder m.selector).symm
    have hlook := Task.look_leads cfg m (.binding holder w.classes.epoch) (.ofWorld w)
      ((Shared.ofWorld w).world.classes.pathAbove holder)
    rw [hfound] at hlook
    refine ⟨_, hlook.trans (Task.Leads.step .refl), ?_⟩
    dsimp only [Task.act, Quest.conclude]
    have hw := w.hushed_noteQuickened "quickened send"
      [("ip", m.place.2.repr), ("selector", m.selector), ("kind", "super")]
    rw [show (w.noteQuickened "quickened send"
      [("ip", m.place.2.repr), ("selector", m.selector), ("kind", "super")]).classes.epoch =
        w.classes.epoch from (congrArg (·.classes.epoch) hw :)]
    exact (Shared.Shows.specialize (.of_world w) _ _).specialize_of_hushed hw

/-- What a message to super is bound to is read. -/
theorem Task.bound_act (cfg : Settings) (w : World) (m : Sending) (holder : Option ClassRef) :
    Task.act cfg (.ofWorld w) (.bound m holder w.classes.epoch) =
      match w.boundSuper? m.place with
      | some target => (.ended (some (superJob target m.selector m.arguments)), .ofWorld w)
      | none => ((Shared.ofWorld w).unbound m w.classes.epoch holder, .ofWorld w) := by
  rw [Task.act, World.boundSuper?, Shared.ofWorld]
  dsimp only
  cases w.sites[m.place]? with
  | none => rfl
  | some site =>
    cases site with
    | super target epoch =>
      dsimp only
      split <;> rfl
    | _ => rfl

/-- A message to super comes by single accesses to what it comes to at once. -/
theorem Task.sendSuper_alone (w : World) (m : Sending) (code : Code) (inProgress : List Node) :
    let out := match w.boundSuper? m.place with
      | some target => (superJob target m.selector m.arguments, w)
      | none => bindSuper m.place code m.selector m.arguments inProgress w
    ∃ r, Task.Leads w.settings (.sendSuper m (w.holderOf inProgress code), .ofWorld w)
      (.ended (some out.1), r) ∧ r.Shows out.2 := by
  have hbound := Task.bound_act w.settings w m (w.holderOf inProgress code)
  -- The epoch is read, and then what the message is bound to.
  cases htarget : w.boundSuper? m.place with
  | some target =>
    rw [htarget] at hbound
    exact ⟨_, Task.Leads.step (Task.Leads.step (hbound ▸ .refl)), .of_world w⟩
  | none =>
    rw [htarget] at hbound
    obtain ⟨r, hleads, hshows⟩ := Task.unbound_leads w.settings w m code inProgress
    exact ⟨r, Task.Leads.step (Task.Leads.step (hbound ▸ hleads)), hshows⟩

end Parley
