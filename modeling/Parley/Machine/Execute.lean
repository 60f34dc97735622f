import Parley.Machine.Site

/-!
# Executing instructions

An activation executes one instruction at a time. It goes on, ends with a value or an unwind, or
sends a message or reads a global and waits for the outcome.

Whatever way an activation ends, its frame is marked once: as returned if the activation comes to
a value, by itself or because a return that unwinds is addressed to it; as unwound if such a
return is addressed to another activation; as aborted otherwise.
-/

namespace Parley

/-- A machine at one moment. -/
structure Machine where
  world : World
  job : Job
  pending : List Pending
deriving Inhabited

/-! ### Entering and leaving -/

/-- Starts to execute a code in a new frame. -/
def World.enter (code : Code) (arguments : List Value) (context : Option FrameRef) (w : World) :
    Job × World :=
  if w.thread.depth < w.settings.maxDepth then
    let activation := w.thread.activations + 1
    let f := w.heap.frames.size
    let w := { w with
      heap := (w.heap.newFrame activation arguments code.program.locals.size context).2
      thread := { w.thread with depth := w.thread.depth + 1, activations := activation } }
    (.execute (.start code f), w.count fun s => { s with frames := s.frames + 1 })
  else (.fail (.stackOverflow w.settings.maxDepth code.signature), w)

namespace Activation

/-- Accounts for the jumps backwards of an activation that ends. -/
def countLoops (a : Activation) (w : World) : World :=
  if a.backEdges = 0 then w
  else
    let w := w.count fun s => { s with backEdges := s.backEdges + a.backEdges }
    if w.settings.loopReport ≤ a.backEdges then
      w.note ⟨.debug, Topic.loops, "hot loop",
        [("method", a.code.signature), ("back_edges", a.backEdges.repr)]⟩
    else w

/-- Ends an activation. -/
def leave (a : Activation) (marker : Marker) (job : Job) (w : World) : Job × World :=
  let w := a.countLoops w
  (job, { w with
    heap := w.heap.leave a.frame marker
    thread := { w.thread with depth := w.thread.depth - 1 } })

/-- Ends an activation with a value. -/
def finish (a : Activation) (v : Value) (w : World) : Job × World :=
  a.leave .returnedNormally (.answer v) w

/-- Ends an activation by an unwind. A return that is addressed to it is its value. -/
def abandon (a : Activation) (u : Unwind) (w : World) : Job × World :=
  match u with
  | .nonLocal activation v =>
    if activation = (w.heap.frame a.frame).activation then a.leave .returnedNormally (.answer v) w
    else a.leave .unwound (.unwind u) w
  | u => a.leave .aborted (.unwind u) w

/-- Ends an activation by a fault. -/
def failing (a : Activation) (f : Fault) (w : World) : Job × World :=
  a.abandon (.failed f) w

/-! ### Single instructions -/

/-- Goes on at an offset with a stack. -/
def goOn (a : Activation) (ip : Nat) (stack : List Value) (w : World) : Job × World :=
  (.execute { a with ip, stack }, w)

/-- Fails since the stack holds too little. -/
def underflow (a : Activation) (w : World) : Job × World :=
  a.failing (.emptyStack a.ip a.code.signature) w

/-- Pushes a variable. -/
def pushVariable (a : Activation) (p : Place) (slot level : UInt8) (next : Nat) (w : World) :
    Job × World :=
  match w.heap.enclosing? a.frame level.toNat with
  | none => a.failing (.contextTooDeep level.toNat) w
  | some f =>
    match p with
    | .temporary =>
      match (w.heap.frame f).locals[slot.toNat]? with
      | some v => a.goOn next (v :: a.stack) w
      | none => a.failing (.localOutOfRange slot.toNat) w
    | .argument =>
      match (w.heap.frame f).arguments[slot.toNat]? with
      | some v => a.goOn next (v :: a.stack) w
      | none => a.failing (.argumentOutOfRange slot.toNat) w
    | .field =>
      match (w.heap.frame f).receiver with
      | .object o =>
        match w.heap.readField w.classes o slot.toNat with
        | (some v, heap) => a.goOn next (v :: a.stack) { w with heap }
        | (none, heap) =>
          let w := { w with heap }
          a.failing (Objects.noField slot.toNat o w) w
      | v => a.failing (.noFields v.typeName) w

/-- Pops the top of the stack, which is `v`, into a variable. -/
def popVariable (a : Activation) (p : Place) (slot level : UInt8) (next : Nat) (v : Value)
    (rest : List Value) (w : World) : Job × World :=
  match w.heap.enclosing? a.frame level.toNat with
  | none => a.failing (.contextTooDeep level.toNat) w
  | some f =>
    match p with
    | .temporary =>
      if slot.toNat < (w.heap.frame f).locals.size then
        a.goOn next rest { w with heap := w.heap.setLocal f slot.toNat v }
      else a.failing (.localOutOfRange slot.toNat) w
    | .argument =>
      if slot.toNat < (w.heap.frame f).arguments.size then
        a.goOn next rest { w with heap := w.heap.setArgument f slot.toNat v }
      else a.failing (.argumentOutOfRange slot.toNat) w
    | .field =>
      match (w.heap.frame f).receiver with
      | .object o =>
        match w.heap.writeField w.classes o slot.toNat v with
        | (true, heap) => a.goOn next rest { w with heap }
        | (false, heap) =>
          let w := { w with heap }
          a.failing (Objects.noField slot.toNat o w) w
      | v => a.failing (.noFields v.typeName) w

/-- Pushes a new closure. -/
def pushClosure (a : Activation) (withContext : Bool) (index : UInt8) (next : Nat) (w : World) :
    Job × World :=
  match a.code.program.literal? index with
  | some (.block code) =>
    let b := w.heap.closures.size
    let closure : Closure := ⟨code, if withContext then some a.frame else none⟩
    let w := { w with heap := (w.heap.newClosure closure).2 }
    a.goOn next (.block b :: a.stack) (w.count fun s => { s with closures := s.closures + 1 })
  | _ => a.failing (.notABlockLiteral index.toNat a.code.signature) w

/-- Returns a value from the method around a block: to the activation of the frame that many
    levels out, if it is in progress. If not, the block has escaped. -/
def returnNonLocal (a : Activation) (level : UInt8) (v : Value) (w : World) : Job × World :=
  match w.heap.enclosing? a.frame level.toNat with
  | none => a.failing (.contextTooDeep level.toNat) w
  | some home =>
    let target := w.heap.frame home
    if target.marker = .onStack then
      a.abandon (.nonLocal target.activation v)
        (w.count fun s => { s with nonLocalReturns := s.nonLocalReturns + 1 })
    else
      match (w.heap.frame a.frame).receiver with
      | .block b =>
        a.abandon (.escaped b v)
          (w.note ⟨.debug, Topic.unwinding, "escaped block",
            [("block", (w.heap.closure b).code.signature),
              ("home", "ActivationId(" ++ target.activation.repr ++ ")"),
              ("state", target.marker.name)]⟩)
      | other => a.failing (.nonLocalReturnFrom other.typeName) w

/-- Adds one to the top of the stack, which is `v`, or takes one away. -/
def step (a : Activation) (up : Bool) (v : Value) (rest : List Value) (next : Nat) (w : World) :
    Job × World :=
  match Number.step up v with
  | .value stepped =>
    a.goOn next (stepped :: rest)
      (Numbers.notePromotion (if up then .add else .sub) v (.int 1) w)
  | _ => a.failing (.notSteppable v.typeName up) w

/-- Jumps, or does not. -/
def jump (a : Activation) (j : Jump) (wide : Bool) (next : Nat) (w : World) : Job × World :=
  let distance := a.code.program.tape.distance a.ip wide
  match j with
  | .always => a.goOn (a.ip + distance) a.stack w
  | .back =>
    (.execute { a with ip := a.ip - distance, backEdges := a.backEdges + 1 }, w)
  | .test on leavesNil =>
    match a.stack with
    | .bool b :: rest =>
      if b = on then a.goOn (a.ip + distance) (if leavesNil then .nil :: rest else rest) w
      else a.goOn next rest w
    | v :: _ => a.failing (.notACondition v.typeName a.code.signature) w
    | [] => a.underflow w
  | .greater =>
    match a.stack with
    | top :: below :: rest =>
      match Number.compare? .gt top below with
      | some true => a.goOn (a.ip + distance) rest w
      | some false => a.goOn next a.stack w
      | none => a.failing (.notLoopBounds top.typeName below.typeName) w
    | _ => a.underflow w

/-- Does something with the top of the stack. -/
def withTop (a : Activation) (w : World) (go : Value → List Value → World → Job × World) :
    Job × World :=
  match a.stack with
  | v :: rest => go v rest w
  | [] => a.underflow w

end Activation

/-! ### What is in progress -/

/-- What an activation refers to. -/
def Activation.refers (a : Activation) : List Node :=
  .code a.code.id :: .frame a.frame :: a.stack.flatMap Value.refers

/-- What something pending refers to. -/
def Pending.refers : Pending → List Node
  | .sender a | .reporter a => a.refers
  | .counting _ _ body result | .cycling _ body result => .closure body :: result.refers
  | .sent | .called => []

/-! ### Any instruction -/

namespace Machine

/-- A machine after a job was done that left nothing pending. -/
def after (k : List Pending) (r : Job × World) : Machine :=
  ⟨r.2, r.1, k⟩

/-- Sends the message of an instruction, and lets the activation wait. -/
def sendInstruction (a : Activation) (toSuper : Bool) (index : UInt8) (next : Nat) (w : World)
    (k : List Pending) : Machine :=
  match a.code.program.literal? index with
  | some (.selector s) =>
    let taken := s.arity + 1
    if a.stack.length < taken then after k (a.underflow w)
    else
      let arguments := (a.stack.take taken).reverse
      let w := w.count fun t => { t with sends := t.sends + 1 }
      let k := .sender { a with ip := next, stack := a.stack.drop taken } :: k
      let l : Location := (a.code.id, a.ip)
      if toSuper then
        match w.boundSuper? l with
        | some target => ⟨w, superJob target s arguments, k⟩
        | none =>
          let inProgress := k.flatMap Pending.refers ++ arguments.flatMap Value.refers
          after k (bindSuper l a.code s arguments inProgress w)
      else after k (sendFrom l s arguments w)
  | _ => after k (a.failing (.notASelector index.toNat) w)

/-- Executes an instruction. -/
def instruction (a : Activation) (op : Opcode) (w : World) (k : List Pending) : Machine :=
  let p := a.code.program
  let next := a.ip + op.size
  let first := p.tape.byteAt (a.ip + 1)
  let second := p.tape.byteAt (a.ip + 2)
  match op with
  | .halt => after k (a.finish (a.stack.headD .nil) w)
  | .dup => after k (a.withTop w fun v rest w => a.goOn next (v :: v :: rest) w)
  | .dupSecond =>
    match a.stack with
    | v :: u :: rest => after k (a.goOn next (u :: v :: u :: rest) w)
    | _ => after k (a.underflow w)
  | .push place => after k (a.pushVariable place first second next w)
  | .pushBlock withContext => after k (a.pushClosure withContext first next w)
  | .pushConstant =>
    match p.literal? first with
    | some (.value v) => after k (a.goOn next (v :: a.stack) w)
    | some (.selector s) => after k (a.goOn next (.symbol s :: a.stack) w)
    | _ => after k (a.failing (.badConstant a.code.signature) w)
  | .pushGlobal =>
    let receiver := (w.heap.frame (w.heap.home a.frame)).receiver
    after (.sender { a with ip := next } :: k)
      (readGlobal (a.code.id, a.ip) (p.literal? first) receiver w)
  | .pushSelf => after k (a.goOn next ((w.heap.frame a.frame).receiver :: a.stack) w)
  | .pushNil => after k (a.goOn next (.nil :: a.stack) w)
  | .pushZero => after k (a.goOn next (.int 0 :: a.stack) w)
  | .pushOne => after k (a.goOn next (.int 1 :: a.stack) w)
  | .drop => after k (a.withTop w fun _ rest w => a.goOn next rest w)
  | .pop place =>
    after k (a.withTop w fun v rest w => a.popVariable place first second next v rest w)
  | .send toSuper => sendInstruction a toSuper first next w k
  | .returnLocal => after k (a.withTop w fun v _ w => a.finish v w)
  | .returnNonLocal => after k (a.withTop w fun v _ w => a.returnNonLocal first v w)
  | .returnSelf => after k (a.finish (w.heap.frame a.frame).receiver w)
  | .step up => after k (a.withTop w fun v rest w => a.step up v rest next w)
  | .jump j wide => after k (a.jump j wide next w)
  | .quickened _ => after k (a.failing (.strayQuickened op.name a.code.signature) w)

/-- Executes the next instruction of an activation. -/
def execute (a : Activation) (w : World) (k : List Pending) : Machine :=
  match a.code.program.tape[a.ip]? with
  | none => after k (a.failing (.ranOff a.code.signature) w)
  | some byte =>
    match Opcode.ofByte? byte with
    | none => after k (a.failing (.badOpcode byte.toNat a.ip a.code.signature) w)
    | some op => instruction a op w k

end Machine

end Parley
