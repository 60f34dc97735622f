import Parley.Proofs.Hosting
import Parley.Proofs.Workloads.Answers

/-!
# Sums
-/

namespace Parley.Workload

open Scene

variable {σ : Scene} {o : ObjectRef}

/-! ### The loop inlined -/

section Inlined

variable {c : Code} {f : FrameRef} {number : Nat} {limit : Int}

/-- The frame of `sumTo:` after so many rounds. -/
def sumFrame (o : ObjectRef) (limit : Int) (number k : Nat) : Frame :=
  ⟨number, #[.object o, Number.reduce limit], #[Number.reduce (total Nat.cast k), variableAfter k],
    [],
    .onStack⟩

/-- A round adds the next number. -/
theorem sum_round {k : Nat} (h : σ.classes.Hosts true) (hc : c.Follows sumInlined)
    (hk : k < limit.toNat) :
    Leads 20 (σ.withFrame f (sumFrame o limit number k))
      (.execute ⟨c, f, 11, [Number.reduce (k + 1), Number.reduce limit, Number.reduce 1], k⟩)
      (σ.withFrame f (sumFrame o limit number (k + 1)))
      (.execute ⟨c, f, 11, [Number.reduce ((k + 1 : Nat) + 1), Number.reduce limit,
        Number.reduce 1], k + 1⟩) := by
  refine .jumpNotGreater (hc.reads rfl) (by omega) ?_
  refine .dup (hc.reads rfl) ?_
  refine .popOwn (l := [Number.reduce (total Nat.cast k), Number.reduce (k + 1)]) (hc.reads rfl)
    Nat.one_lt_two rfl ?_
  refine .pushOwn (hc.reads rfl) rfl ?_
  refine .pushOwn (hc.reads rfl) rfl ?_
  refine .ask (hc.sends rfl) [_, _] rfl rfl (.arith .add (h.arith .add rfl) rfl) ?_
  refine .dup (hc.reads rfl) ?_
  refine .popOwn (l := [Number.reduce (total Nat.cast (k + 1)), Number.reduce (k + 1)])
    (hc.reads rfl)
    Nat.two_pos (by rw [total_succ]; rfl) ?_
  refine .drop (hc.reads rfl) ?_
  refine .inc (hc.reads rfl) ?_
  refine .jumpBack (hc.reads rfl) ?_
  rw [Nat.cast_succ]
  exact (Leads.refl _ _).mono (Nat.zero_le _)

theorem sum_inlined (h : σ.Ready true o) (limit : Int) (hdepth : σ.depth < σ.limit) :
    Leads (20 * limit.toNat + 20) σ (.send "sumTo:" [.object o, Number.reduce limit]) σ
      (.answer (Number.reduce (total Nat.cast limit.toNat))) := by
  obtain ⟨c, hl, hc⟩ := h.method (m := sumMethod) (k := sumInlined) (by simp [sketches])
  refine (?_ : Leads (4 + 20 * limit.toNat + 9) _ _ _ _).mono (by omega)
  refine .sendMethod hc hl rfl hdepth fun f number hf _ => ?_
  refine .pushZero (hc.reads rfl) ?_
  refine .dup (hc.reads rfl) ?_
  refine .popOwn (l := [Number.reduce 0, .nil]) (hc.reads rfl) Nat.two_pos rfl ?_
  refine .drop (hc.reads rfl) ?_
  refine .pushOne (hc.reads rfl) ?_
  refine .pushOwn (hc.reads rfl) rfl ?_
  refine .dupSecond (hc.reads rfl) ?_
  have hrounds := Leads.iterate (φ := fun k => σ.deeper.withFrame f (sumFrame o limit number k))
    (J := fun k => .execute ⟨c, f, 11,
      [Number.reduce (k + 1), Number.reduce limit, Number.reduce 1], k⟩)
    fun k (hk : k < limit.toNat) => sum_round h.hosts hc hk
  refine hrounds.trans ?_
  refine .jumpGreater (hc.reads rfl) (by omega) ?_
  refine .drop (hc.reads rfl) ?_
  refine .pushOwn (hc.reads rfl) rfl ?_
  exact .answer (hc.reads rfl) (.refl _) hf

end Inlined

/-! ### Its body in a block -/

section Closed

variable {τ : Scene} {c : Code} {f : FrameRef} {r : BlockRef} {number : Nat} {limit : Int}

/-- The frame of `sumTo:` after so many evaluations of the block. -/
def sumFrameClosed (o : ObjectRef) (limit : Int) (number k : Nat) : Frame :=
  ⟨number, #[.object o, Number.reduce limit], #[Number.reduce (total Nat.cast k)], [], .onStack⟩

/-- An evaluation of the block adds the number. -/
theorem sumBody_leads {k : Nat} (h : τ.classes.Hosts false) (hc : c.Follows sumBody)
    (hr : τ.closures r = some ⟨c, some f⟩) (hdepth : τ.depth < τ.limit) :
    Leads 20 (τ.withFrame f (sumFrameClosed o limit number k)) (.evaluate r [Number.reduce (1 + k)])
      (τ.withFrame f (sumFrameClosed o limit number (k + 1)))
      (.answer (Number.reduce (total Nat.cast (k + 1)))) := by
  refine .evaluate hc hr (around_some (withFrame_frames_self ..)) rfl hdepth fun g _ hg _ => ?_
  refine .pushOuter (hc.reads rfl) hg rfl (withFrame_frames_self ..) rfl ?_
  refine .pushOwn (hc.reads rfl) rfl ?_
  refine .ask (hc.sends rfl) [_, _] rfl rfl (.arith .add (h.arith .add rfl) rfl) ?_
  rw [Arith.exact, Int.add_comm 1, ← Nat.cast_succ, ← total_succ]
  refine .dup (hc.reads rfl) ?_
  refine .popOuter (l := [Number.reduce (total Nat.cast (k + 1))]) (hc.reads rfl) hg rfl
    (withFrame_frames_self ..) Nat.one_pos rfl ?_
  refine .answer (hc.reads rfl) ?_ (withFrame_frames_eq_none hg)
  rw [show deeper (τ.withFrame f (sumFrameClosed o limit number k)) =
    τ.deeper.withFrame f (sumFrameClosed o limit number k) from rfl, withFrame_withFrame]
  exact .refl _

theorem sum_closed {n : Int64} (h : σ.Ready false o) (hdepth : σ.depth < σ.limit)
    (hnested : 1 ≤ n.toInt → σ.depth + 1 < σ.limit) :
    Leads (22 * n.toInt.toNat + 20) σ (.send "sumTo:" [.object o, Number.reduce n.toInt]) σ
      (.answer (Number.reduce (total Nat.cast n.toInt.toNat))) := by
  obtain ⟨c, hl, hc⟩ := h.method (m := sumMethod) (k := sumClosed) (by simp [sketches])
  obtain ⟨c₁, hcode₁, hc₁⟩ := hc.block 0 rfl
  refine (?_ : Leads (3 + ((20 + 2) * n.toInt.toNat + 1 + 2) + 11) _ _ _ _).mono (by omega)
  refine .sendMethod hc hl rfl hdepth fun f number hf _ => ?_
  refine .pushZero (hc.reads rfl) ?_
  refine .dup (hc.reads rfl) ?_
  refine .popOwn (l := [Number.reduce 0]) (hc.reads rfl) Nat.one_pos rfl ?_
  refine .drop (hc.reads rfl) ?_
  refine .pushOne (hc.reads rfl) ?_
  refine .pushOwn (hc.reads rfl) rfl ?_
  refine .pushBlock (hc.reads rfl) hcode₁ fun r hr => ?_
  have hrounds : Leads _ _ (.count 1 n.toInt r (Number.reduce 1)) _ (.answer (Number.reduce 1)) :=
    .count (m := n.toInt.toNat) (n := 20) (φ := fun k =>
      (σ.deeper.withClosure r ⟨c₁, some f⟩).withFrame f (sumFrameClosed o n.toInt number k))
      (by omega) fun k hk => ⟨by omega, _,
        sumBody_leads h.hosts hc₁ (withClosure_closures_self ..) (hnested (by omega))⟩
  refine .send (hc.sends rfl) [_, _, _] rfl rfl
    (.toDo (x := 1) (y := n) (h.hosts.finds (by decide)) rfl rfl hrounds) ?_
  refine .drop (hc.reads rfl) ?_
  refine .pushOwn (hc.reads rfl) rfl ?_
  exact .answer (hc.reads rfl) (le_withClosure hr) hf

end Closed

/-- `sumTo:` answers the sum. -/
theorem sum_leads {inlining : Bool} {n : Int64} (h : σ.Ready inlining o)
    (hdepth : σ.depth + nesting inlining n.toInt .loop ≤ σ.limit) :
    Leads (22 * n.toInt.toNat + 20) σ (.send "sumTo:" [.object o, Number.reduce n.toInt]) σ
      (.answer (answer n.toInt .loop)) := by
  rw [nesting] at hdepth
  cases inlining with
  | true => exact (sum_inlined h _ hdepth).mono (by omega)
  | false =>
    simp only [Bool.false_eq_true, false_or] at hdepth
    split at hdepth <;> exact sum_closed h (by omega) fun hn => by omega

end Parley.Workload
