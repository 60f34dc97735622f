import Parley.Proofs.Balance
import Parley.Proofs.Brackets
import Parley.Proofs.Sites

/-!
# What instructions are specialized to over whole runs

A code is never changed, and no other one ever has its number. What is specialized are its
instructions, each when it is executed and to what its opcode calls for (`Site.Suits`); after that
little becomes of it (`Site.Keeps`). A shortcut gives way to a chain, a chain is what messages make
of it, and a message to super is bound anew; the rest is for good. That holds however the executions
are nested and whatever is installed in between (`Ensemble.Specialized`), and so no instruction ever
finds something that is not for it.
-/

namespace Parley

variable {s : Stock} {w : World} {m m' : Machine} {code : Code} {ip n : Nat}

/-! ### Kinds -/

namespace Site

/-- Whether an instruction may be specialized to something. It has to read a global, or to send a
    message. -/
def Suits (code : Code) (ip : Nat) : Site → Prop
  | .global _ => ∃ name, code.reads? ip = some name
  | .chain c => code.sends? ip = some (false, c.selector)
  | .eager _ _ _ arity => ∃ selector, code.sends? ip = some (false, selector) ∧
      arity = selector.arity
  | .super _ _ => ∃ selector, code.sends? ip = some (true, selector)

/-- What becomes of something that an instruction is specialized to. -/
inductive Keeps : Site → Site → Prop
  | stays (site : Site) : Keeps site site
  /-- A shortcut gives way to a chain that was new. -/
  | yields (op : Shortcut) (cls : ClassRef) (epoch arity : Nat) {selector : Selector} {c : Chain} :
      (Chain.new selector).Extends c → Keeps (.eager op cls epoch arity) (.chain c)
  | chain {c c' : Chain} : c.Extends c' → Keeps (.chain c) (.chain c')
  | super (target target' : Option Invokable) (epoch epoch' : Nat) :
      Keeps (.super target epoch) (.super target' epoch')

theorem Keeps.trans {site site' site'' : Site} (h : site.Keeps site') (h' : site'.Keeps site'') :
    site.Keeps site'' := by
  cases h with
  | stays => exact h'
  | yields op cls epoch arity hc =>
    cases h' with
    | stays => exact .yields op cls epoch arity hc
    | chain hc' => exact .yields op cls epoch arity (hc.trans hc')
  | chain hc =>
    cases h' with
    | stays => exact .chain hc
    | chain hc' => exact .chain (hc.trans hc')
  | super target target' epoch epoch' =>
    cases h' with
    | stays => exact .super _ _ _ _
    | super => exact .super _ _ _ _

theorem Suits.opcode {site : Site} (h : site.Suits code ip) :
    ∃ op, code.program.tape.opcode? ip = some op := by
  have hreads : ∀ name, code.reads? ip = some name → ∃ op, code.program.tape.opcode? ip =
    some op := by
    intro name hread
    rw [Code.reads?] at hread
    split at hread
    · rename_i hop
      exact ⟨_, hop⟩
    · cases hread
  have hsends : ∀ message, code.sends? ip = some message →
      ∃ op, code.program.tape.opcode? ip = some op := by
    intro message hsend
    rw [Code.sends?] at hsend
    split at hsend
    · rename_i hop
      exact ⟨_, hop⟩
    · cases hsend
  cases site with
  | global cell =>
    obtain ⟨name, hread⟩ := h
    exact hreads name hread
  | chain c => exact hsends _ h
  | eager op cls epoch arity =>
    obtain ⟨selector, hsend, -⟩ := h
    exact hsends _ hsend
  | super target epoch =>
    obtain ⟨selector, hsend⟩ := h
    exact hsends _ hsend

/-- There is nothing beyond the tape. -/
theorem Suits.lt {site : Site} (h : site.Suits code ip) : ip < code.program.tape.size := by
  obtain ⟨op, hop⟩ := h.opcode
  rw [Tape.opcode?] at hop
  split at hop
  · rename_i hbyte
    exact (Array.getElem?_eq_some_iff.1 hbyte).1
  · cases hop

namespace Ages

variable {o o' : Option Site} {site : Site}

/-- What comes of executing an instruction suits it, if what was there did. -/
theorem suits (h : Ages n code ip o o') (ho : ∀ site, o = some site → site.Suits code ip) :
    ∀ site, o' = some site → site.Suits code ip := by
  induction h with
  | refl => exact ho
  | @tail o' _ _ hb ih =>
    obtain ⟨site, rfl, hb⟩ := hb
    rintro _ ⟨⟩
    cases hb with
    | finds cell hread => exact ⟨_, hread⟩
    | binds op cls epoch hsend => exact ⟨_, hsend, rfl⟩
    | opens hsend | yields hsend => exact hsend
    | @dispatches w c arguments _ =>
      have hc : code.sends? ip = some (false, c.selector) := ih _ rfl
      rw [Suits, (c.dispatch_turns arguments w).selector]
      exact hc
    | bindsSuper target epoch hsend => exact ⟨_, hsend⟩
    | @rebinds target epoch _ _ =>
      have hsuper : (Site.super target epoch).Suits code ip := ih _ rfl
      exact hsuper

theorem keeps (h : Ages n code ip (some site) o') : ∃ site', o' = some site' ∧
    site.Keeps site' := by
  induction h with
  | refl => exact ⟨site, rfl, .stays site⟩
  | tail _ hb ih =>
    obtain ⟨site', rfl, hkeeps⟩ := ih
    obtain ⟨site'', rfl, hb⟩ := hb
    refine ⟨site'', rfl, hkeeps.trans ?_⟩
    cases hb with
    | yields _ => exact .yields _ _ _ _ (.refl _)
    | @dispatches w c arguments _ => exact .chain (c.dispatch_turns arguments w).extends_
    | rebinds target' epoch' => exact .super _ _ _ _

end Ages

end Site

/-! ### Checked codes -/

/-- A code whose tape passes the check. -/
def Code.IsChecked (c : Code) : Prop :=
  ∃ bound, c.program.tape.stackBound c.program.literals c.program.arguments.size
    c.program.locals.size = .ok bound

theorem Code.IsChecked.checked (h : code.IsChecked) :
    ∃ depths bound, code.program.tape.Checked code.program.literals code.program.arguments.size
      code.program.locals.size depths bound := by
  obtain ⟨bound, h⟩ := h
  rw [Tape.stackBound] at h
  cases hcheck : code.program.tape.check code.program.literals code.program.arguments.size
      code.program.locals.size with
  | error e =>
    rw [hcheck] at h
    cases h
  | ok r => exact ⟨r.1, r.2, Tape.checked_of_check hcheck⟩

namespace Machine

/-- Whatever becomes of a machine, its activations are in states of runs. -/
theorem Proceeds.underway (hp : m.Proceeds m') (h : Underway code m) : Underway code m' := by
  cases hp with
  | step => exact step_underway h
  | change => exact ⟨h.executes, h.waits⟩
  | request _ hr => exact .of_ne_execute (by rintro a (ha | ha) <;> cases ha) hr.job.1
  | consult hk hr hp =>
    refine .of_ne_execute (fun a ha => h.waits a ?_) hr.job.1
    refine ha.imp (fun ha => ?_) fun ha => ?_ <;>
    · rcases List.mem_cons.1 ha with rfl | ha
      · rcases hp with hp | hp <;> cases hp
      · exact hk.mem ha
  | reply hk _ | refuse hk _ =>
    exact .of_ne_execute (fun a ha => h.waits a (ha.imp hk.mem hk.mem)) nofun

/-- Nothing is executed but codes that were made. -/
theorem wrote_of_execute (h : m.Sound s) {a : Activation} (ha : m.job = .execute a) {op : Opcode}
    (hop : a.code.program.tape.opcode? a.ip = some op) : .block a.code ∈ s.written := by
  have hjob := h.job
  rw [ha] at hjob
  refine hjob.code.resolve_left fun hd => ?_
  rw [hd] at hop
  cases hop

end Machine

/-! ### Slots -/

namespace Ensemble

variable {p : World → Prop} {e e' : Ensemble}

theorem Next.wrote (hn : e.Next e') (hs : e.machine.Sound s) {c : Code}
    (hc : e.machine.world.Wrote c) : e'.machine.world.Wrote c := by
  obtain ⟨s', hle, hs'⟩ := hn.sound hs
  exact hs'.world.wrote_iff.2 (hle.written (hs.world.wrote_iff.1 hc))

theorem Live.wrote (h : Live p e) (hl : Later p e e') {c : Code} (hc : e.machine.world.Wrote c) :
    e'.machine.world.Wrote c := by
  induction hl with
  | refl => exact hc
  | tail hl hn ih =>
    obtain ⟨s, hs⟩ := (h.later hl).sound
    exact hn.1.wrote hs ih

theorem Live.underway (h : Live p e) (code : Code) : Machine.Underway code e.machine := by
  induction h with
  | start => exact .of_ne_execute (by rintro a (ha | ha) <;> cases ha) nofun
  | next _ hn _ ih =>
    cases hn with
    | proceeds hp => exact hp.underway ih
    | yields => exact .of_ne_execute (by rintro a (ha | ha) <;> cases ha) nofun

/-- What is specialized is an instruction of a code, to something that suits it. In a code whose
    tape passes the check it is one of those that the check goes through. -/
theorem Live.slots (h : Live p e) : ∀ (l : Location) (site : Site),
    e.machine.world.sites[l]? = some site → ∃ code, e.machine.world.Wrote code ∧ code.id = l.1 ∧
      site.Suits code l.2 ∧ (code.IsChecked → l.2 ∈ code.program.tape.starts) := by
  induction h with
  | @start w hw _ =>
    intro l site hl
    rw [Ensemble.start, hw.sites, Std.HashMap.getElem?_empty] at hl
    cases hl
  | @next e e' h hn _ ih =>
    obtain ⟨s, hs⟩ := h.sound
    intro l site hl
    have hstays : e.machine.world.sites[l]? = some site → ∃ code, e'.machine.world.Wrote code ∧
        code.id = l.1 ∧ site.Suits code l.2 ∧
          (code.IsChecked → l.2 ∈ code.program.tape.starts) := by
      intro hl
      obtain ⟨code, hcode, hrest⟩ := ih l site hl
      exact ⟨code, hn.wrote hs hcode, hrest⟩
    have hn' := hn
    cases hn with
    | @proceeds m hp =>
      rcases hp.specializes hs l with heq | ⟨a, op, ha, hop, rfl, hages⟩
      · exact hstays (heq ▸ hl)
      · have hcode := Machine.wrote_of_execute hs ha hop
        refine ⟨a.code, hn'.wrote hs (hs.world.wrote_iff.2 hcode), rfl, ?_, fun hchecked => ?_⟩
        -- What was there was for this code, as no other one has its number.
        · refine hages.suits (fun site₀ hl₀ => ?_) site hl
          obtain ⟨d, hd, hid, hsuits, -⟩ := ih _ site₀ hl₀
          exact hs.world.stock.apart d a.code (hs.world.wrote_iff.1 hd) hcode hid ▸ hsuits
        · obtain ⟨depths, bound, hc⟩ := hchecked.checked
          exact (((h.underway a.code).executes a ha rfl).balanced hc).starts
    | yields i _ _ _ _ hsites _ _ _ _ => exact hstays (hsites ▸ hl)

theorem Live.keeps (h : Live p e) (hl : Later p e e') {l : Location} {site : Site}
    (hsite : e.machine.world.sites[l]? = some site) :
    ∃ site', e'.machine.world.sites[l]? = some site' ∧ site.Keeps site' := by
  induction hl with
  | refl => exact ⟨site, hsite, .stays site⟩
  | tail hl hn ih =>
    obtain ⟨site', hsite', hkeeps⟩ := ih
    obtain ⟨s, hs⟩ := (h.later hl).sound
    obtain ⟨hn, -⟩ := hn
    cases hn with
    | proceeds hp =>
      rcases hp.specializes hs l with heq | ⟨a, op, -, -, -, hages⟩
      · exact ⟨site', heq.trans hsite', hkeeps⟩
      · rw [hsite'] at hages
        obtain ⟨site'', hsite'', hkeeps'⟩ := hages.keeps
        exact ⟨site'', hsite'', hkeeps.trans hkeeps'⟩
    | yields i _ _ _ _ hsites _ _ _ _ => exact ⟨site', hsites.symm ▸ hsite', hkeeps⟩

/-- The only mechanical fault that ever arises is that there are too many activations. -/
theorem Live.mechanical (h : Live p e) : ∀ f, e.machine.job = .fail f → f.isMechanical →
    ∃ limit signature, f = .stackOverflow limit signature := by
  induction h with
  | start => exact fun f hf => by cases hf
  | next h hn _ ih =>
    obtain ⟨s, hs⟩ := h.sound
    intro f hjob hf
    cases hn with
    | proceeds hp =>
      rcases hp.mechanical hs h.kept.carries hjob hf with heq | ⟨limit, signature, hlimit, -⟩
      · exact ih f (heq.symm.trans hjob) hf
      · exact ⟨limit, signature, hlimit⟩
    | yields => cases hjob

/-- What holds of the codes of an ensemble and of what their instructions are specialized to. -/
structure Specialized (e : Ensemble) : Prop where
  /-- A code is always there, tape and all, and no other one ever has its number. -/
  codes : ∀ e', Later (fun _ => True) e e' → ∀ code, e.machine.world.Wrote code →
    e'.machine.world.Wrote code ∧
      ∀ code', e'.machine.world.Wrote code' → code'.id = code.id → code' = code
  /-- An instruction is specialized by executions of it only. -/
  executes : ∀ e', e.Next e' → ∀ l : Location,
    e'.machine.world.sites[l]? = e.machine.world.sites[l]? ∨
      ∃ a, e.machine.job = .execute a ∧ e.machine.world.Wrote a.code ∧ l = (a.code.id, a.ip) ∧
        Site.Ages e.machine.world.settings.cacheSize a.code a.ip e.machine.world.sites[l]?
          e'.machine.world.sites[l]?
  /-- It is specialized to what its opcode calls for; what is none, or sends nothing and reads no
      global, is not specialized. -/
  suits : ∀ (l : Location) (site : Site), e.machine.world.sites[l]? = some site →
    ∃ code, e.machine.world.Wrote code ∧ code.id = l.1 ∧ site.Suits code l.2 ∧
      l.2 < code.program.tape.size ∧ (code.IsChecked → l.2 ∈ code.program.tape.starts)
  /-- A read of a global has the cell of its name. -/
  cells : ∀ code ip cell, e.machine.world.Wrote code →
    e.machine.world.sites[(code.id, ip)]? = some (.global cell) →
      ∃ name, code.reads? ip = some name ∧ e.machine.world.globals.find? name = some cell
  lasts : ∀ e', Later (fun _ => True) e e' → ∀ (l : Location) (site : Site),
    e.machine.world.sites[l]? = some site →
      ∃ site', e'.machine.world.sites[l]? = some site' ∧ site.Keeps site'
  /-- No instruction finds something that is not for it. -/
  strays : ∀ ip name, e.machine.job ≠ .fail (.strayCallSite ip name) ∧
    e.machine.job ≠ .fail (.strayGlobalSite ip name)

/-- Whatever the programs are and whatever is installed, every instruction is specialized to what is
    right for it and keeps that. -/
theorem specialized (h : Live p e) : e.Specialized := by
  obtain ⟨s, hs⟩ := h.sound
  have hlive : Live (fun _ => True) e := h.mono fun _ _ => trivial
  refine ⟨fun e' hl code hcode => ?_, fun e' hn l => ?_, fun l site hl => ?_,
    fun code ip cell hcode hl => ?_, fun e' hl l site => hlive.keeps hl, fun ip name => ?_⟩
  · obtain ⟨s', hs'⟩ := (hlive.later hl).sound
    have hcode' := hlive.wrote hl hcode
    refine ⟨hcode', fun code' hwrote hid => ?_⟩
    exact hs'.world.stock.apart code' code (hs'.world.wrote_iff.1 hwrote)
      (hs'.world.wrote_iff.1 hcode') hid
  · cases hn with
    | proceeds hp =>
      refine (hp.specializes hs l).imp_right ?_
      rintro ⟨a, op, ha, hop, hl, hages⟩
      exact ⟨a, ha, hs.world.wrote_iff.2 (Machine.wrote_of_execute hs ha hop), hl, hages⟩
    | yields i _ _ _ _ hsites _ _ _ _ => exact .inl (by rw [← hsites]; rfl)
  · obtain ⟨code, hcode, hid, hsuits, hstarts⟩ := h.slots l site hl
    exact ⟨code, hcode, hid, hsuits, hsuits.lt, hstarts⟩
  · have hwritten := hs.world.wrote_iff.1 hcode
    obtain ⟨name, hread⟩ := Option.isSome_iff_exists.1 (hs.world.site hwritten hl)
    exact ⟨name, hread, hs.world.cells _ cell hl code name hwritten rfl hread⟩
  · refine ⟨fun hjob => ?_, fun hjob => ?_⟩ <;>
    · obtain ⟨limit, signature, hlimit⟩ := h.mechanical _ hjob rfl
      cases hlimit

/-- The machine that has sent a message once, through a call site that has a chain since. -/
theorem specialized_asked : Live (fun _ => True) asked ∧
    (∃ c, asked.machine.world.sites[((0, 1) : Location)]? = some (.chain c)) ∧
    asked.Specialized := by
  have hlive : Live (fun _ => True) asked := asked_live.mono fun _ _ => trivial
  exact ⟨hlive, ⟨_, sites_asked⟩, specialized hlive⟩

end Ensemble

end Parley
