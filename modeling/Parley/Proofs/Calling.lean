import Parley.Proofs.Executing

/-!
# Calling in a scene

Where messages lead to in a scene. A message finds a method or a primitive by the class of its
receiver (`Scene.lookup?`). A method or block is executed in a new frame, and an activation that
sent the message goes on with the answer, or is left by an unwind that goes through it.
-/

namespace Parley

namespace Scene

open Machine

variable {σ σ' σ₁ σ₂ σ₃ τ τ' : Scene} {w : World} {j' j₂ : Job} {n n₁ n₂ : Nat} {s : Selector}
  {arguments : List Value} {u v : Value}

/-! ### Lookups -/

/-- The class of a value, if it is known. -/
def classOf? (σ : Scene) : Value → Option ClassRef
  | .nil => some Core.nil
  | .bool true => some Core.true
  | .bool false => some Core.false
  | .int _ | .big _ => some Core.integer
  | .double _ => some Core.double
  | .string _ _ => some Core.string
  | .symbol _ => some Core.symbol
  | .array _ => some Core.array
  | .block _ => some Core.block
  | .object o => σ.instances o
  | .classRef c => σ.classes.metaclass? c

/-- What a message to a value finds, if the class of the value is known. -/
def lookup? (σ : Scene) (v : Value) (s : Selector) : Option Invokable :=
  (σ.classOf? v).bind fun c => σ.classes.lookup c s

@[simp] theorem classOf?_reduce (σ : Scene) (i : Int) :
    σ.classOf? (Number.reduce i) = some Core.integer := by
  obtain ⟨s, hs, -⟩ | hb := Number.reduce_cases i
  · rw [hs, classOf?]
  · rw [hb, classOf?]

theorem lookup?_object {o : ObjectRef} {c : ClassRef} {i : Invokable}
    (ho : σ.instances o = some c) (hi : σ.classes.lookup c s = some i) :
    σ.lookup? (.object o) s = some i := by
  rw [lookup?, classOf?, ho, Option.bind_some, hi]

theorem Holds.classOf (h : σ.Holds w) {c : ClassRef} (hc : σ.classOf? v = some c) :
    w.classOf v = c := by
  cases v with
  | object o => exact h.instances o c hc
  | classRef k =>
    rw [World.classOf, h.classes, show σ.classes.metaclass? k = some c from hc, Option.getD_some]
  | bool b =>
    cases b with
    | false => exact Option.some.inj hc
    | true => exact Option.some.inj hc
  | _ => exact Option.some.inj hc

theorem Holds.lookup (h : σ.Holds w) {i : Invokable} (hi : σ.lookup? v s = some i) :
    w.lookup v s = some i := by
  obtain ⟨c, hc, hl⟩ := Option.bind_eq_some_iff.1 hi
  rw [World.lookup, h.classOf hc, h.classes, hl]

/-! ### Calls -/

theorem Leads.look {i : Invokable} (hi : σ.lookup? (argument arguments 0) s = some i)
    (hnext : Leads n σ (.invoke i arguments) σ' j') :
    Leads (n + 1) σ (.send s arguments) σ' j' :=
  .next trivial fun w k hw _ => ⟨w, σ, _, by
    simp only [step, send, hw.lookup hi], hw, hnext⟩

theorem Holds.call {c : Code} {k : Sketch} (hw : σ.Holds w) (hc : c.Follows k)
    (harguments : arguments.length = k.arguments) (hdepth : σ.depth < σ.limit) (p : List Pending) :
    ∃ w' f number, σ.frames f = none ∧
      (∀ g G, σ.frames g = some G → G.activation < number) ∧
      Machine.step ⟨w, .invoke (.method c) arguments, p⟩ = ⟨w', .execute ⟨c, f, 0, [], 0⟩, p⟩ ∧
      (σ.deeper.withFrame f
        ⟨number, arguments.toArray, Array.replicate k.locals .nil, [], .onStack⟩).Holds w' := by
  obtain ⟨w', henter, hw'⟩ := hw.enter hdepth c arguments (show σ.around none = some [] from rfl)
  rw [hc.locals] at hw'
  refine ⟨w', _, _, hw.frames_size, fun g G hG => Nat.lt_succ_of_le (hw.activations g G hG), ?_,
    hw'⟩
  simp only [step, invoke, if_pos (harguments.trans hc.argumentCount.symm), henter]
  rfl

/-- A method is executed in a new frame. -/
theorem Leads.call {c : Code} {k : Sketch} (hc : c.Follows k)
    (harguments : arguments.length = k.arguments) (hdepth : σ.depth < σ.limit)
    (hnext : ∀ f number, σ.frames f = none →
      (∀ g G, σ.frames g = some G → G.activation < number) →
        Leads n (σ.deeper.withFrame f
            ⟨number, arguments.toArray, Array.replicate k.locals .nil, [], .onStack⟩)
          (.execute ⟨c, f, 0, [], 0⟩) σ' j') :
    Leads (n + 1) σ (.invoke (.method c) arguments) σ' j' :=
  .next trivial fun _ p hw _ => by
    obtain ⟨w', f, number, hf, hnumber, hstep, hw'⟩ := hw.call hc harguments hdepth p
    exact ⟨w', _, _, hstep, hw', hnext f number hf hnumber⟩

/-- A block is executed in a new frame, inside that which it was made in. -/
theorem Leads.evaluate {c : Code} {k : Sketch} {r : BlockRef} {context : Option FrameRef}
    {outer : List FrameRef} (hc : c.Follows k) (hr : σ.closures r = some ⟨c, context⟩)
    (houter : σ.around context = some outer) (harguments : arguments.length + 1 = k.arguments)
    (hdepth : σ.depth < σ.limit)
    (hnext : ∀ f number, σ.frames f = none →
      (∀ g G, σ.frames g = some G → G.activation < number) →
        Leads n (σ.deeper.withFrame f ⟨number, (.block r :: arguments).toArray,
            Array.replicate k.locals .nil, outer, .onStack⟩)
          (.execute ⟨c, f, 0, [], 0⟩) σ' j') :
    Leads (n + 1) σ (.evaluate r arguments) σ' j' :=
  .next trivial fun w k hw _ => by
    obtain ⟨w', henter, hw'⟩ := hw.enter hdepth c (.block r :: arguments) houter
    rw [hc.locals] at hw'
    refine ⟨w', _, _, ?_, hw', hnext _ _ hw.frames_size fun g G hG =>
      Nat.lt_succ_of_le (hw.activations g G hG)⟩
    have hcount : Closure.parameterCount ⟨c, context⟩ = arguments.length := by
      rw [Closure.parameterCount, hc.argumentCount, ← harguments, Nat.add_sub_cancel]
    simp only [step, Machine.evaluate, hw.closure hr, if_pos hcount, henter]
    rfl

/-- A message finds a method, which is executed in a new frame. -/
theorem Leads.sendMethod {c : Code} {k : Sketch} (hc : c.Follows k)
    (hi : σ.lookup? (argument arguments 0) s = some (.method c))
    (harguments : arguments.length = k.arguments) (hdepth : σ.depth < σ.limit)
    (hnext : ∀ f number, σ.frames f = none →
      (∀ g G, σ.frames g = some G → G.activation < number) →
        Leads n (σ.deeper.withFrame f
            ⟨number, arguments.toArray, Array.replicate k.locals .nil, [], .onStack⟩)
          (.execute ⟨c, f, 0, [], 0⟩) σ' j') :
    Leads (n + 2) σ (.send s arguments) σ' j' :=
  .look hi (.call hc harguments hdepth hnext)

/-- A primitive that goes on with a job. -/
theorem Leads.primitive {p : Primitive} (harguments : arguments.length = p.selector.arity + 1)
    (hbuiltin : p.builtin ≠ .instVarAt) (h : ∀ w, σ.Holds w → ∃ w' σ₁ j₁,
      p.builtin.apply arguments w = (j₁, w') ∧ σ₁.Holds w' ∧ Leads n σ₁ j₁ σ' j') :
    Leads (n + 1) σ (.invoke (.primitive p) arguments) σ' j' :=
  .next hbuiltin fun w k hw _ => by
    obtain ⟨w', σ₁, j₁, happly, hw', hnext⟩ := h w hw
    refine ⟨w', σ₁, j₁, ?_, hw', hnext⟩
    simp only [step, invoke, if_pos harguments, happly]
    rfl

/-! ### Messages -/

section Messages

variable {c : Code} {f : FrameRef} {F : Frame} {ip b : Nat} {stack st : List Value} {r : BlockRef}

/-- An activation sends a message, and waits on top of what is pending. -/
theorem Leads.waiting (hs : c.sends? ip = some (false, s)) (arguments : List Value)
    (hstack : stack = arguments.reverse ++ st) (hlength : arguments.length = s.arity + 1)
    (hend : Clears n (.sender ⟨c, f, ip + 2, st, b⟩) σ (.send s arguments) σ' j') :
    Leads (n + 1) σ (.execute ⟨c, f, ip, stack, b⟩) σ' j' := by
  subst hstack
  have hsends : Activation.sends? ⟨c, f, ip, arguments.reverse ++ st, b⟩ = some (false, s) := by
    rw [Activation.sends?, Option.filter_eq_some_iff]
    refine ⟨hs, decide_eq_true ?_⟩
    simp only [List.length_append, List.length_reverse]
    omega
  have hmessage : Activation.message ⟨c, f, ip, arguments.reverse ++ st, b⟩ s = arguments := by
    rw [Activation.message, List.take_append_of_le_length (by simp [hlength]),
      List.take_of_length_le (by simp [hlength]), List.reverse_reverse]
  have hwaiting : Activation.waiting ⟨c, f, ip, arguments.reverse ++ st, b⟩ false s =
      ⟨c, f, ip + 2, st, b⟩ := by
    simp [Activation.waiting, ← hlength, Opcode.size]
  refine .pending (fun _ _ => ⟨fun _ _ h => Job.noConfusion h, fun a selector ha => ?_⟩)
    (fun w k _ _ => ?_) hend
  · cases ha
    simp [hsends]
  · simp only [reference, hsends, hmessage, hwaiting]

/-- Something comes of the message. -/
theorem Leads.sending (hs : c.sends? ip = some (false, s)) (arguments : List Value)
    (hstack : stack = arguments.reverse ++ st) (hlength : arguments.length = s.arity + 1)
    (hcall : Leads n₁ σ (.send s arguments) σ₂ j₂)
    (hend : Clears n (.sender ⟨c, f, ip + 2, st, b⟩) σ₂ j₂ σ' j') :
    Leads (n + n₁ + 1) σ (.execute ⟨c, f, ip, stack, b⟩) σ' j' :=
  .waiting hs arguments hstack hlength (hcall.clears hend)

/-- It goes on with the answer. -/
theorem Leads.send (hs : c.sends? ip = some (false, s)) (arguments : List Value)
    (hstack : stack = arguments.reverse ++ st) (hlength : arguments.length = s.arity + 1)
    (hcall : Leads n₁ σ (.send s arguments) σ₂ (.answer v))
    (hnext : Leads n σ₂ (.execute ⟨c, f, ip + 2, v :: st, b⟩) σ' j') :
    Leads (n + n₁ + 2) σ (.execute ⟨c, f, ip, stack, b⟩) σ' j' := by
  rw [show n + n₁ + 2 = n + 1 + n₁ + 1 by omega]
  exact .sending hs arguments hstack hlength hcall <| .last trivial fun w _ hw =>
    ⟨w, σ₂, _, rfl, hw, hnext⟩

/-- A primitive answers. -/
theorem Leads.ask (hs : c.sends? ip = some (false, s)) (arguments : List Value)
    (hstack : stack = arguments.reverse ++ st) (hlength : arguments.length = s.arity + 1)
    (hcall : Leads 2 σ (.send s arguments) σ₂ (.answer v))
    (hnext : Leads n σ₂ (.execute ⟨c, f, ip + 2, v :: st, b⟩) σ' j') :
    Leads (n + 4) σ (.execute ⟨c, f, ip, stack, b⟩) σ' j' :=
  .send hs arguments hstack hlength hcall hnext

/-- It starts again. -/
theorem Leads.sendRestart (hs : c.sends? ip = some (false, s)) (arguments : List Value)
    (hstack : stack = arguments.reverse ++ st) (hlength : arguments.length = s.arity + 1)
    (hcall : Leads n₁ σ (.send s arguments) σ₂ (.unwind .restart))
    (hnext : Leads n σ₂ (.execute ⟨c, f, 0, [], b⟩) σ' j') :
    Leads (n + n₁ + 2) σ (.execute ⟨c, f, ip, stack, b⟩) σ' j' := by
  rw [show n + n₁ + 2 = n + 1 + n₁ + 1 by omega]
  exact .sending hs arguments hstack hlength hcall <| .last trivial fun w _ hw =>
    ⟨_, σ₂, _, rfl, (hw.count fun s => { s with restarts := s.restarts + 1 }).note _, hnext⟩

/-- A return that is addressed to it is its value. -/
theorem Leads.sendReturned (hs : c.sends? ip = some (false, s)) (arguments : List Value)
    (hstack : stack = arguments.reverse ++ st) (hlength : arguments.length = s.arity + 1)
    (hcall : Leads n₁ σ (.send s arguments) (τ.withFrame f F)
      (.unwind (.nonLocal F.activation v))) (hle : σ₁.deeper.Le τ) :
    Leads (n₁ + 2) σ (.execute ⟨c, f, ip, stack, b⟩)
      (σ₁.withFrame f (F.leave .returnedNormally)) (.answer v) := by
  rw [show n₁ + 2 = 0 + 1 + n₁ + 1 by omega]
  refine .sending hs arguments hstack hlength hcall <| .last trivial fun w _ hw => ?_
  let a : Activation := ⟨c, f, ip + 2, st, b⟩
  refine ⟨_, _, _, ?_, Holds.leave (a := a) hw hle .returnedNormally (.answer v), .refl _ _⟩
  have hF : (w.heap.frame a.frame).activation = F.activation := by
    rw [hw.frame (withFrame_frames_self ..)]
  simp only [step, unwindInto, settle, Activation.abandon, a, hF, if_true]
  rfl

/-- A return that is addressed to another activation goes through. -/
theorem Leads.sendThrough {number : Nat} (hs : c.sends? ip = some (false, s))
    (arguments : List Value) (hstack : stack = arguments.reverse ++ st)
    (hlength : arguments.length = s.arity + 1)
    (hcall : Leads n₁ σ (.send s arguments) (τ.withFrame f F) (.unwind (.nonLocal number v)))
    (hne : number ≠ F.activation) (hle : σ₁.deeper.Le τ) :
    Leads (n₁ + 2) σ (.execute ⟨c, f, ip, stack, b⟩)
      (σ₁.withFrame f (F.leave .unwound)) (.unwind (.nonLocal number v)) := by
  rw [show n₁ + 2 = 0 + 1 + n₁ + 1 by omega]
  refine .sending hs arguments hstack hlength hcall <| .last trivial fun w _ hw => ?_
  let a : Activation := ⟨c, f, ip + 2, st, b⟩
  refine ⟨_, _, _, ?_, Holds.leave (a := a) hw hle .unwound (.unwind (.nonLocal number v)),
    .refl _ _⟩
  have hF : (w.heap.frame a.frame).activation = F.activation := by
    rw [hw.frame (withFrame_frames_self ..)]
  simp only [step, unwindInto, settle, Activation.abandon, a, hF, if_neg hne]
  rfl

/-- A block escapes: the receiver of the method is told, and the activation goes on with the
    answer. -/
theorem Leads.sendEscaped {i : Invokable} (hs : c.sends? ip = some (false, s))
    (arguments : List Value) (hstack : stack = arguments.reverse ++ st)
    (hlength : arguments.length = s.arity + 1)
    (hcall : Leads n₁ σ (.send s arguments) σ₂ (.unwind (.escaped r v)))
    (hF : σ₂.frames f = some F) (houter : F.outer = [])
    (hi : σ₂.lookup? F.receiver "escapedBlock:" = some i)
    (hreport : Leads n₂ σ₂ (.invoke i [F.receiver, .block r]) σ₃ (.answer u))
    (hnext : Leads n σ₃ (.execute ⟨c, f, ip + 2, u :: st, b⟩) σ' j') :
    Leads (n + n₂ + n₁ + 4) σ (.execute ⟨c, f, ip, stack, b⟩) σ' j' := by
  rw [show n + n₂ + n₁ + 4 = n + 1 + n₂ + 1 + 1 + n₁ + 1 by omega]
  have hanswer : Clears (n + 1) (.reporter ⟨c, f, ip + 2, st, b⟩) σ₃ (.answer u) σ' j' :=
    .last trivial fun w _ hw => ⟨w, σ₃, _, rfl, hw, hnext⟩
  have hreceiver : ∀ w, σ₂.Holds w → (w.heap.frame (w.heap.home f)).receiver = F.receiver := by
    intro w hw
    rw [Heap.home, hw.frame hF, houter, List.getLastD_nil, hw.frame hF]
  refine .sending hs arguments hstack hlength hcall <|
    .instead (.reporter ⟨c, f, ip + 2, st, b⟩) trivial fun w _ hw =>
      ⟨_, σ₂, .report F.receiver (.escaped r v), ?_,
        hw.count fun s => { s with escapedBlocks := s.escapedBlocks + 1 }, ?_⟩
  · rw [← hreceiver w hw]
    rfl
  · refine .instead _ trivial fun w _ hw => ⟨w, σ₂, _, ?_, hw, hreport.clears hanswer⟩
    simp only [step, noteCondition, Handler.job, hw.handler, Handler.standardJob,
      Condition.handlerSelector, hw.lookup hi, Condition.handlerArguments]

/-- An activation goes on with what a global holds. -/
theorem Leads.pushGlobal {name : String} {i : UInt8}
    (h : c.Reads ip .pushGlobal [i]) (hname : c.program.literals[i.toNat]? = some (.global name))
    (hv : σ.globals.read? name = some v)
    (hnext : Leads n σ (.execute ⟨c, f, ip + 2, v :: stack, b⟩) σ' j') :
    Leads (n + 2) σ (.execute ⟨c, f, ip, stack, b⟩) σ' j' := by
  obtain ⟨cell, hcell, hv⟩ := Option.bind_eq_some_iff.1 hv
  have hsends : Activation.sends? ⟨c, f, ip, stack, b⟩ = none := by
    show Option.filter _ (c.sends? ip) = none
    rw [Code.sends?, h.opcode]
    rfl
  refine .pending (p := .sender ⟨c, f, ip + 2, stack, b⟩)
    (fun _ _ => ⟨fun _ _ h => Job.noConfusion h, fun a selector ha => ?_⟩) (fun w k hw hsites => ?_)
    (.last (j := .answer v) trivial fun w _ hw => ⟨w, σ, _, rfl, hw, hnext⟩)
  · cases ha
    simp [hsends]
  · have hfind : w.globals.find? name = some cell := by rw [hw.globals, hcell]
    have hget : w.globals.get? cell = some v := by rw [hw.globals, hv]
    simp only [reference, hsends]
    rw [step_execute (a := ⟨c, f, ip, stack, b⟩) h.opcode]
    simp only [Machine.instruction, Program.literal?, h.first, hname, readGlobal, hsites,
      Std.HashMap.getElem?_empty, Globals.cell, hfind, readCell, World.noteQuickened_globals, hget]
    simp only [after, Machine.plain, World.plain_specialize, World.plain_noteQuickened]
    rfl

end Messages

/-! ### Counting -/

section Counting

variable {next limit : Int} {body : BlockRef}

theorem Leads.countDone (h : limit < next) :
    Leads 1 σ (.count next limit body v) σ (.answer v) :=
  .next trivial fun w k hw _ => ⟨w, σ, .answer v, by
    rw [step, if_neg (not_le.2 h)], hw, .refl _ _⟩

/-- A block is evaluated with a number, and something comes of it. -/
theorem Leads.counting (h : next ≤ limit)
    (hbody : Leads n₁ σ (.evaluate body [Number.reduce next]) σ₂ j₂)
    (hend : Clears n (.counting (next + 1) limit body v) σ₂ j₂ σ' j') :
    Leads (n + n₁ + 1) σ (.count next limit body v) σ' j' :=
  .pending (fun _ _ => ⟨nofun, nofun⟩) (fun w k _ _ => by
    show (step ⟨w, .count next limit body v, k⟩).plain = _
    rw [step, if_pos h]
    rfl) (hbody.clears hend)

/-- The count goes on after an answer. -/
theorem Leads.countNext (h : next ≤ limit)
    (hbody : Leads n₁ σ (.evaluate body [Number.reduce next]) σ₂ (.answer u))
    (hnext : Leads n σ₂ (.count (next + 1) limit body v) σ' j') :
    Leads (n + n₁ + 2) σ (.count next limit body v) σ' j' := by
  rw [show n + n₁ + 2 = n + 1 + n₁ + 1 by omega]
  exact .counting h hbody <| .last trivial fun w _ hw => ⟨w, σ₂, _, rfl, hw, hnext⟩

/-- An unwind ends it. -/
theorem Leads.countThrough {uw : Unwind} (h : next ≤ limit)
    (hbody : Leads n₁ σ (.evaluate body [Number.reduce next]) σ₂ (.unwind uw)) :
    Leads (n₁ + 2) σ (.count next limit body v) σ₂ (.unwind uw) := by
  rw [show n₁ + 2 = 0 + 1 + n₁ + 1 by omega]
  exact .counting h hbody <| .last trivial fun w _ hw => ⟨w, σ₂, _, rfl, hw, .refl _ _⟩

/-- What one evaluation of a block does is done for one number after another. -/
theorem Leads.countRounds {φ : Nat → Scene} {m : Nat} (hbody : ∀ k < m, next + k ≤ limit ∧
      ∃ u, Leads n (φ k) (.evaluate body [Number.reduce (next + k)]) (φ (k + 1)) (.answer u)) :
    Leads ((n + 2) * m) (φ 0) (.count next limit body v) (φ m)
      (.count (next + m) limit body v) := by
  have hround : ∀ k < m, Leads (n + 2) (φ k) (.count (next + k) limit body v) (φ (k + 1))
      (.count (next + (k + 1 : Nat)) limit body v) := fun k hk => by
    obtain ⟨hle, u, hu⟩ := hbody k hk
    rw [Nat.cast_succ, ← Int.add_assoc]
    exact (Leads.countNext hle hu (.refl _ _)).mono (by omega)
  simpa using Leads.iterate (J := fun k => .count (next + k) limit body v) hround

/-- It is done for every number up to the limit. -/
theorem Leads.count {φ : Nat → Scene} {m : Nat} (hm : limit < next + m)
    (hbody : ∀ k < m, next + k ≤ limit ∧
      ∃ u, Leads n (φ k) (.evaluate body [Number.reduce (next + k)]) (φ (k + 1)) (.answer u)) :
    Leads ((n + 2) * m + 1) (φ 0) (.count next limit body v) (φ m) (.answer v) := by
  rw [Nat.add_comm]
  exact (Leads.countRounds hbody).trans (.countDone hm)

end Counting

end Scene

end Parley
