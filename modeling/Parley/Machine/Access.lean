import Parley.Machine.Site

/-!
# Sending access by access

Machines that share a world share the method tables of its classes, the epoch, and what
instructions are specialized to. Each access to one of these is a step of its own, between which
other machines take theirs. So what a machine does with a message of an instruction is given here
as a *task*, which makes one access at a time (`Task.act`). To install a method takes two: it is
inserted in the table of its class, and then the epoch is advanced.

The order of the accesses matters. Whoever makes an entry of a chain or binds a message to super
reads the epoch before it looks the message up; who binds a message to a shortcut reads it
afterwards. A chain is locked from the time it is found to lack an entry until it has it.

Counters and events are left out: nothing that is remembered depends on them.
-/

namespace Parley

namespace ClassTable

variable (t : ClassTable)

/-- The first half of an installation: the table of the class has the method. -/
def insert (c : ClassRef) (i : Invokable) : ClassTable :=
  { t with
    classes := t.classes.modify c fun k => { k with methods := k.methods.put i.signature i } }

/-- The second half: a new epoch starts. -/
def advance : ClassTable :=
  { t with epoch := t.epoch + 1 }

theorem install_eq_advance (c : ClassRef) (i : Invokable) :
    t.install c i = (t.insert c i).advance :=
  rfl

/-- The classes whose tables a lookup in a class goes through. -/
def path (c : ClassRef) : List ClassRef :=
  c :: (t.get c).lineage

/-- The classes whose tables a lookup above a class goes through. -/
def pathAbove (c : ClassRef) : List ClassRef :=
  match (t.get c).superclass with
  | some k => t.path k
  | none => []

end ClassTable

/-- A lookup above a class asks one table after another. -/
theorem World.lookupAbove_eq (w : World) (holder : ClassRef) (s : Selector) :
    w.lookupAbove holder s =
      (w.classes.pathAbove holder).findSome? fun c => w.classes.own? c s := by
  rw [lookupAbove, ClassTable.pathAbove]
  cases (w.classes.get holder).superclass <;> rfl

/-! ### What machines share -/

/-- What machines share. The `n`-th chain of an instruction is the one that it has after it was
    given a new one `n` times. -/
structure Shared where
  world : World
  /-- How many times an instruction gave up a shortcut for a new chain. -/
  renewals : Location → Nat
  /-- The chains that were replaced by newer ones. Machines that found them go through them
      still. -/
  former : Location → Nat → Option Chain

namespace Shared

variable (r : Shared)

/-- A world that nothing was replaced in. -/
def ofWorld (w : World) : Shared :=
  ⟨w, fun _ => 0, fun _ _ => none⟩

/-- The classes whose tables a lookup of a message to a value goes through. -/
def path (v : Value) : List ClassRef :=
  r.world.classes.path (r.world.classOf v)

/-- The `n`-th chain of an instruction; a new one if there is none. -/
def chain (l : Location) (n : Nat) (s : Selector) : Chain :=
  let found := if n = r.renewals l then r.world.sites[l]?.bind Site.chain? else r.former l n
  found.getD (.new s)

/-- Specializes an instruction. -/
def specialize (l : Location) (site : Site) : Shared :=
  { r with world := r.world.specialize l site }

/-- Changes the `n`-th chain of an instruction. -/
def publish (l : Location) (n : Nat) (c : Chain) : Shared :=
  if n = r.renewals l then r.specialize l (.chain c)
  else
    { r with former := fun k i => if k = l ∧ i = n then some c else r.former k i }

/-- Gives an instruction a new chain in the place of what it was specialized to. -/
def renew (l : Location) (s : Selector) : Shared where
  world := r.world.specialize l (.chain (.new s))
  renewals := fun k => if k = l then r.renewals k + 1 else r.renewals k
  former := fun k i =>
    if k = l ∧ i = r.renewals l then r.world.sites[l]?.bind Site.chain? else r.former k i

/-- Inserts a method in the table of a class. -/
def insert (c : ClassRef) (i : Invokable) : Shared :=
  { r with world := { r.world with classes := r.world.classes.insert c i } }

/-- Starts a new epoch. -/
def advance : Shared :=
  { r with world := { r.world with classes := r.world.classes.advance } }

/-- Brings an instance up to date. -/
def migrate (v : Value) : Shared :=
  { r with world := r.world.migrate v }

end Shared

/-! ### Tasks -/

/-- A message that an instruction sends. -/
structure Sending where
  place : Location
  selector : Selector
  arguments : List Value

namespace Sending

variable (m : Sending)

/-- The receiver of the message. -/
def receiver : Value :=
  argument m.arguments 0

/-- The job to look the message up. -/
def lookUp : Job :=
  .send m.selector m.arguments

/-- The job to reach a target with the message. -/
def reach (t : Target) : Job :=
  t.job m.selector m.arguments

end Sending

/-- What a message is looked up for. -/
inductive Quest where
  /-- To bind it to a shortcut, if what is found has one. -/
  | shortcut
  /-- For an entry of the `n`-th chain, at the end or in the place of an older one. -/
  | entry (n epoch : Nat) (entries : List Entry) (slot : Option Nat)
  /-- To bind a message to super, above the class of its method. -/
  | binding (holder : ClassRef) (epoch : Nat)

/-- What a machine is about to do at the shared tables. -/
inductive Task where
  /-- Nothing. A message has come to a job. -/
  | ended (job : Option Job)
  /-- Advances the epoch; a method was inserted. -/
  | advance
  /-- Reads what the instruction is specialized to. -/
  | send (m : Sending)
  /-- Asks the tables of these classes, one after another. -/
  | look (m : Sending) (q : Quest) (left : List ClassRef)
  /-- Remembers what was found. -/
  | found (m : Sending) (q : Quest) (target : Option Invokable)
  /-- Specializes an instruction, if no other machine did. -/
  | fill (m : Sending) (site : Site)
  /-- Tries a shortcut. -/
  | attempt (m : Sending) (op : Shortcut) (cls : ClassRef) (epoch : Nat)
  /-- Gives up a shortcut. -/
  | renew (m : Sending)
  /-- Reads the `n`-th chain of the instruction. -/
  | ask (m : Sending) (n : Nat)
  /-- Reads the epoch, to ask the entries of the chain as it was read. -/
  | date (m : Sending) (n : Nat) (state : ChainState)
  /-- Asks the entries. -/
  | search (m : Sending) (n : Nat) (state : ChainState) (epoch : Nat)
  /-- Locks the chain and asks its entries once more. -/
  | lock (m : Sending) (n epoch : Nat)
  /-- Reads the epoch, to send a message to super. -/
  | sendSuper (m : Sending) (holder : Option ClassRef)
  /-- Reads what a message to super is bound to. -/
  | bound (m : Sending) (holder : Option ClassRef) (epoch : Nat)

/-- What a message comes to by what its instruction is specialized to. -/
def Shared.along (r : Shared) (m : Sending) : Site → Task
  | .chain c => .ask { m with selector := c.selector } (r.renewals m.place)
  | .eager op cls epoch _ => .attempt m op cls epoch
  | site => .ended (some (.fail (.strayCallSite m.place.2 site.opcode.name)))

/-- What a message to super comes to that is not bound in this epoch. -/
def Shared.unbound (r : Shared) (m : Sending) (epoch : Nat) : Option ClassRef → Task
  | some holder => .look m (.binding holder epoch) (r.world.classes.pathAbove holder)
  | none => .ended (some (.fail (.superOutsideClass m.selector)))

/-- Remembers what was found. -/
def Quest.conclude (m : Sending) (target : Option Invokable) (r : Shared) : Quest → Task × Shared
  | .shortcut =>
    match target.bind Invokable.shortcut? with
    | some op =>
      -- The epoch is read only now.
      let site := .eager op (r.world.classOf m.receiver) r.world.classes.epoch m.selector.arity
      (.fill m site, r)
    | none => (.fill m (.chain (.new m.selector)), r)
  | .entry n epoch entries slot =>
    let e : Entry := ⟨r.world.guardOf m.receiver, epoch, .ofLookup target⟩
    let entries := match slot with
      | some slot => entries.set slot e
      | none => entries ++ [e]
    (.ended (some (m.reach e.target)), r.publish m.place n ⟨m.selector, .cached entries⟩)
  | .binding _ epoch =>
    (.ended (some (superJob target m.selector m.arguments)),
      r.specialize m.place (.super target epoch))

/-- What is done about a miss, while the chain is locked. -/
def Shared.remedy (r : Shared) (m : Sending) (n epoch : Nat) (entries : List Entry) :
    Chain.Miss → Task × Shared
  | .found t => (.ended (some (m.reach t)), r)
  | .refresh slot =>
    (.look m (.entry n epoch entries (some slot)) (r.path m.receiver), r)
  | .full => (.ended (some m.lookUp), r.publish m.place n ⟨m.selector, .megamorphic⟩)
  | .grow => (.look m (.entry n epoch entries none) (r.path m.receiver), r)

/-- The next access of a machine with some settings, and what it does then. -/
def Task.act (cfg : Settings) (r : Shared) : Task → Task × Shared
  | .ended job => (.ended job, r)
  | .advance => (.ended none, r.advance)
  | .send m =>
    match r.world.sites[m.place]? with
    | some site => (r.along m site, r)
    | none =>
      if cfg.eager then (.look m .shortcut (r.path m.receiver), r)
      else (.fill m (.chain (.new m.selector)), r)
  | .look m q [] => (.found m q none, r)
  | .look m q (c :: left) =>
    match r.world.classes.own? c m.selector with
    | some i => (.found m q (some i), r)
    | none => (.look m q left, r)
  | .found m q target => q.conclude m target r
  | .fill m site =>
    match r.world.sites[m.place]? with
    | some site => (r.along m site, r)
    | none => (r.along m site, r.specialize m.place site)
  | .attempt m op cls epoch =>
    if epoch = r.world.classes.epoch && r.world.classOf m.receiver = cls then
      match op.apply? m.arguments r.world with
      | some done => (.ended (some done.1), r)
      | none => (.renew m, r)
    else (.renew m, r)
  | .renew m => (.ask m (r.renewals m.place + 1), r.renew m.place m.selector)
  | .ask m n => (.date m n (r.chain m.place n m.selector).state, r)
  | .date m n state => (.search m n state r.world.classes.epoch, r)
  | .search m _ .megamorphic _ => (.ended (some m.lookUp), r)
  | .search m n (.cached entries) epoch =>
    match Chain.hit? entries (r.world.guardOf m.receiver) epoch with
    | some t => (.ended (some (m.reach t)), r)
    | none =>
      if entries.isEmpty || !r.world.isOutdated m.receiver then (.lock m n epoch, r)
      else (.ask m n, r.migrate m.receiver)
  | .lock m n epoch =>
    match (r.chain m.place n m.selector).state with
    | .megamorphic => (.ended (some m.lookUp), r)
    | .cached entries =>
      r.remedy m n epoch entries
        (Chain.miss entries (r.world.guardOf m.receiver) epoch cfg.cacheSize)
  | .sendSuper m holder => (.bound m holder r.world.classes.epoch, r)
  | .bound m holder epoch =>
    match r.world.sites[m.place]? with
    | some (.super target epoch') =>
      if epoch' = epoch then (.ended (some (superJob target m.selector m.arguments)), r)
      else (r.unbound m epoch holder, r)
    | _ => (r.unbound m epoch holder, r)

/-! ### Locks -/

/-- The chain that a task has locked. -/
def Task.holds : Task → Option (Location × Nat)
  | .look m (.entry n _ _ _) _ | .found m (.entry n _ _ _) _ => some (m.place, n)
  | _ => none

/-- The chain that a task is about to read or to lock. -/
def Task.wants : Task → Option (Location × Nat)
  | .ask m n | .lock m n _ => some (m.place, n)
  | _ => none

end Parley
