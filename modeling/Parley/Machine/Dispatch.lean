import Parley.Machine.Job

/-!
# Sending through a dispatch chain

A chain answers a message by a job: to call what one of its entries leads to, or to look it up.
A miss on an instance that is behind its class brings the instance up to date first and then
asks the entries once more; only if none matches then is the chain changed.
-/

namespace Parley

namespace World

variable (w : World)

/-- What a dispatch chain knows a receiver by. -/
def guardOf (receiver : Value) : Guard :=
  match receiver with
  | .object o => .ofLayout (w.heap.instance_ o).layout.id
  | v => .ofClass (w.classOf v)

/-- Whether a value is an instance that is behind its class. -/
def isOutdated (receiver : Value) : Bool :=
  match receiver with
  | .object o =>
    let i := w.heap.instance_ o
    i.layout.id ≠ (w.classes.get i.cls).layout.id
  | _ => false

/-- Brings an instance up to date. -/
def migrate (receiver : Value) : World :=
  match receiver with
  | .object o => { w with heap := (w.heap.updateLayout w.classes o).2 }
  | _ => w

end World

/-- The job to reach a target with a message. -/
def Target.job (t : Target) (selector : Selector) (arguments : List Value) : Job :=
  match t with
  | .invoke i => .invoke i arguments
  | .notUnderstood =>
    .report (arguments.headD .nil) (.notUnderstood selector (arguments.drop 1))

namespace Chain

/-- A new entry for a receiver, made by a lookup. -/
def newEntry (selector : Selector) (receiver : Value) (w : World) : Entry × World :=
  let guard := w.guardOf receiver
  match w.lookup receiver selector with
  | some i => (⟨guard, w.classes.epoch, .invoke i⟩, w)
  | none =>
    (⟨guard, w.classes.epoch, .notUnderstood⟩,
      w.note ⟨.debug, Topic.dispatch, "installing does-not-understand entry",
        [("selector", selector), ("class", w.classes.name (w.classOf receiver))]⟩)

/-- Looks up a message without asking the entries. -/
def uncached (selector : Selector) (arguments : List Value) (w : World) : Job × World :=
  (.send selector arguments, w.count fun s => { s with megamorphicSends := s.megamorphicSends + 1 })

/-- Answers a message that no entry matches. -/
def specialize (selector : Selector) (entries : List Entry) (arguments : List Value) (w : World) :
    Job × Chain × World :=
  let w := w.count fun s => { s with cacheMisses := s.cacheMisses + 1 }
  let receiver := arguments.headD .nil
  match miss entries (w.guardOf receiver) w.classes.epoch w.settings.cacheSize with
  | .found t => (t.job selector arguments, ⟨selector, .cached entries⟩, w)
  | .refresh slot =>
    let (entry, w) := newEntry selector receiver w
    let w := w.note ⟨.trace, Topic.dispatch, "stale dispatch entry refreshed",
      [("selector", selector), ("slot", slot.repr)]⟩
    (entry.target.job selector arguments, ⟨selector, .cached (entries.set slot entry)⟩, w)
  | .full =>
    let w := w.note ⟨.debug, Topic.dispatch, "call site went megamorphic",
      [("selector", selector), ("depth", entries.length.repr)]⟩
    let (job, w) := uncached selector arguments w
    (job, ⟨selector, .megamorphic⟩, w)
  | .grow =>
    let (entry, w) := newEntry selector receiver w
    let w := w.note ⟨.trace, Topic.dispatch, "dispatch chain grew",
      [("selector", selector), ("depth", (entries.length + 1).repr)]⟩
    (entry.target.job selector arguments, ⟨selector, .cached (entries ++ [entry])⟩, w)

/-- Answers a message by an entry, if one matches. -/
def cached? (selector : Selector) (entries : List Entry) (arguments : List Value) (w : World) :
    Option Job :=
  (hit? entries (w.guardOf (arguments.headD .nil)) w.classes.epoch).map
    fun t => t.job selector arguments

/-- Counts an answer by an entry. -/
def countHit (w : World) : World :=
  w.count fun s => { s with cacheHits := s.cacheHits + 1 }

/-- Answers a message: the job to do, and the chain afterwards. -/
def dispatch (c : Chain) (arguments : List Value) (w : World) : Job × Chain × World :=
  match c.state with
  | .megamorphic =>
    let (job, w) := uncached c.selector arguments w
    (job, c, w)
  | .cached entries =>
    match cached? c.selector entries arguments w with
    | some job => (job, c, countHit w)
    | none =>
      if entries.isEmpty || !w.isOutdated (arguments.headD .nil) then
        specialize c.selector entries arguments w
      else
        let w := w.migrate (arguments.headD .nil)
        match cached? c.selector entries arguments w with
        | some job => (job, c, countHit w)
        | none => specialize c.selector entries arguments w

end Chain

end Parley
