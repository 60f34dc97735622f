import Parley.Proofs.Hosting
import Parley.Proofs.Workloads.Answers

/-!
# Counting by restarts
-/

namespace Parley.Workload

open Scene

variable {σ τ ρ : Scene} {o : ObjectRef} {c : Code} {f g : FrameRef} {F : Frame}
  {p q r : BlockRef} {inlining : Bool} {m number s t : Nat} {i n : Int} {v : Value}

/-! ### A loop of the library -/

/-- The frame of `whileTrue:` -/
def loopFrame (p q : BlockRef) (number : Nat) : Frame :=
  ⟨number, #[.block p, .block q], #[], [], .onStack⟩

/-- What `whileTrue:` is compiled to. -/
def whileSketch (inlining : Bool) : Sketch :=
  if inlining then loopInlined true else loopClosed "ifFalse:"

/-- A loop is left by a return of nil out of a block. -/
theorem exit_leads (hc : c.Follows loopExit) (hr : ρ.closures r = some ⟨c, some g⟩)
    (hF : ρ.frames g = some F) (hmarker : F.marker = .onStack) (hdepth : ρ.depth < ρ.limit) :
    Leads 3 ρ (.evaluate r []) ρ (.unwind (.nonLocal F.activation .nil)) := by
  refine .evaluate hc hr (around_some hF) rfl hdepth fun q _ hq hnumber => ?_
  refine .pushNil (hc.reads rfl) ?_
  exact (Leads.returnNonLocal (hc.reads rfl) (.refl _) hq rfl hF hmarker (hnumber g F hF).ne).weaken
    (le_withFrame hq)

section Loop

variable (h : τ.classes.Hosts inlining) (hc : c.Follows (whileSketch inlining))

include h hc

/-- While the condition holds, the body is evaluated and the activation starts again. -/
theorem while_round (hcond : Leads s (τ.withFrame g (loopFrame p q number)) (.evaluate p [])
      (τ.withFrame g (loopFrame p q number)) (.answer (.bool true)))
    (hbody : Leads t (τ.withFrame g (loopFrame p q number)) (.evaluate q [])
      (ρ.withFrame g (loopFrame p q number)) (.answer v)) (hclasses : ρ.classes = τ.classes) :
    Leads (s + t + 22) (τ.withFrame g (loopFrame p q number)) (.execute ⟨c, g, 0, [], 0⟩)
      (ρ.withFrame g (loopFrame p q number)) (.execute ⟨c, g, 0, [], 0⟩) := by
  have hrestart : ρ.classes.Finds Core.block "restart" .restart := by
    rw [hclasses]
    exact h.finds (by decide)
  cases inlining with
  | true =>
    replace hc : c.Follows (loopInlined true) := hc
    refine (?_ : Leads (6 + (t + 2) + 2 + 3 + (s + 2) + 2 + 1) _ _ _ _).mono (by omega)
    refine .pushSelf (hc.reads rfl) (withFrame_frames_self ..) ?_
    refine .send (hc.sends rfl) [_] rfl rfl
      (.value (h.finds (by decide)) rfl hcond) ?_
    refine .jumpOn (hc.reads rfl) ?_
    refine .drop (hc.reads rfl) ?_
    refine .pushOwn (hc.reads rfl) rfl ?_
    refine .send (hc.sends rfl) [_] rfl rfl
      (.value (h.finds (by decide)) rfl hbody) ?_
    refine .drop (hc.reads rfl) ?_
    refine .pushSelf (hc.reads rfl) (withFrame_frames_self ..) ?_
    exact Leads.mono (.sendRestart (hc.sends rfl) [_] rfl rfl (.restart hrestart) (.refl _ _))
      (by omega)
  | false =>
    replace hc : c.Follows (loopClosed "ifFalse:") := hc
    obtain ⟨c₁, hcode₁, -⟩ := hc.block 1 rfl
    refine (?_ : Leads (6 + (t + 2) + 2 + 7 + (s + 2) + 2 + 1) _ _ _ _).mono (by omega)
    refine .pushSelf (hc.reads rfl) (withFrame_frames_self ..) ?_
    refine .send (hc.sends rfl) [_] rfl rfl
      (.value (h.finds (by decide)) rfl hcond) ?_
    refine .pushBlock (hc.reads rfl) hcode₁ fun r hr => ?_
    refine .forget ((le_withClosure hr).withFrame _ _) ?_
    refine .ask (hc.sends rfl) [_, _] rfl rfl (.ifFalseNot (h.finds (by decide))) ?_
    refine .drop (hc.reads rfl) ?_
    refine .pushOwn (hc.reads rfl) rfl ?_
    refine .send (hc.sends rfl) [_] rfl rfl
      (.value (h.finds (by decide)) rfl hbody) ?_
    refine .drop (hc.reads rfl) ?_
    refine .pushSelf (hc.reads rfl) (withFrame_frames_self ..) ?_
    exact Leads.mono (.sendRestart (hc.sends rfl) [_] rfl rfl (.restart hrestart) (.refl _ _))
      (by omega)

/-- When it does not hold, the activation answers. -/
theorem while_exit (hcond : Leads s (τ.withFrame g (loopFrame p q number)) (.evaluate p [])
      (τ.withFrame g (loopFrame p q number)) (.answer (.bool false))) (hle : σ.deeper.Le τ)
    (hg : σ.frames g = none) (hdepth : τ.depth < τ.limit) :
    Leads (s + 20) (τ.withFrame g (loopFrame p q number)) (.execute ⟨c, g, 0, [], 0⟩) σ
      (.answer .nil) := by
  refine (?_ : Leads (10 + (s + 2) + 2 + 1) _ _ _ _).mono (by omega)
  cases inlining with
  | true =>
    replace hc : c.Follows (loopInlined true) := hc
    refine .pushSelf (hc.reads rfl) (withFrame_frames_self ..) ?_
    refine .send (hc.sends rfl) [_] rfl rfl (.value (h.finds (by decide)) rfl hcond) ?_
    refine .jumpPast (hc.reads rfl) rfl ?_
    refine .pushNil (hc.reads rfl) ?_
    exact .answer (hc.reads rfl) hle hg
  | false =>
    replace hc : c.Follows (loopClosed "ifFalse:") := hc
    obtain ⟨c₁, hcode₁, hc₁⟩ := hc.block 1 rfl
    refine .pushSelf (hc.reads rfl) (withFrame_frames_self ..) ?_
    refine .send (hc.sends rfl) [_] rfl rfl (.value (h.finds (by decide)) rfl hcond) ?_
    refine .pushBlock (hc.reads rfl) hcode₁ fun r hr => ?_
    refine Leads.mono (.weaken (.sendReturned (hc.sends rfl) [_, _] rfl rfl
      (.ifFalse (h.finds (by decide)) (exit_leads hc₁ (withClosure_closures_self ..)
        (withFrame_frames_self ..) rfl hdepth)) (hle.trans (le_withClosure hr))) (le_withFrame hg))
          (by omega)

end Loop

/-! ### Counting -/

section Count

variable (hr : ρ.closures r = some ⟨c, some f⟩) (hF : ρ.frames f = some F)
  (hi : (F.slots .temporary)[0]? = some (Number.reduce i)) (hdepth : ρ.depth < ρ.limit)

include hr hF hi hdepth

theorem condition_leads (h : ρ.classes.Hosts inlining) (hc : c.Follows countCondition)
    (hn : (F.slots .argument)[1]? = some (Number.reduce n)) :
    Leads 10 ρ (.evaluate r []) ρ (.answer (.bool (i < n))) := by
  refine .evaluate hc hr (around_some hF) rfl hdepth fun g _ hg _ => ?_
  refine .pushOuter (hc.reads rfl) hg rfl hF hi ?_
  refine .pushOuter (hc.reads rfl) hg rfl hF hn ?_
  refine .ask (hc.sends rfl) [_, _] rfl rfl (.compare .lt (h.compare .lt)) ?_
  rw [Number.holds_lt]
  exact .answer (hc.reads rfl) (.refl _) hg

theorem body_leads {l : List Value} (h : ρ.classes.Hosts inlining) (hc : c.Follows countBody)
    (hl : (F.slots .temporary).set 0 (Number.reduce (i + 1)) = l) :
    Leads 20 ρ (.evaluate r []) (ρ.withFrame f (F.withLocals l))
      (.answer (Number.reduce (i + 1))) := by
  refine .evaluate hc hr (around_some hF) rfl hdepth fun g _ hg _ => ?_
  refine .pushOuter (hc.reads rfl) hg rfl hF hi ?_
  refine .pushOne (hc.reads rfl) ?_
  refine .ask (hc.sends rfl) [_, _] rfl rfl (.arith .add (h.arith .add rfl) rfl) ?_
  refine .dup (hc.reads rfl) ?_
  refine .popOuter (hc.reads rfl) hg rfl hF (List.getElem?_eq_some_iff.1 hi).1 hl ?_
  refine .answer (hc.reads rfl) (.refl _) ?_
  rwa [withFrame_frames_of_ne (ne_of_frames hF hg).symm]

end Count

/-- The frame of `countTo:` after so many rounds. -/
def countFrame (o : ObjectRef) (n : Int) (p q : BlockRef) (number k : Nat) : Frame :=
  ⟨number, #[.object o, Number.reduce n], #[Number.reduce k, .block p, .block q], [], .onStack⟩

/-- The loop counts up to the limit. -/
theorem loop_leads {c₁ c₂ : Code} (h : τ.classes.Hosts inlining) (hc₁ : c₁.Follows countCondition)
    (hc₂ : c₂.Follows countBody) (hp : τ.closures p = some ⟨c₁, some f⟩)
    (hq : τ.closures q = some ⟨c₂, some f⟩) (hdepth : τ.depth + 1 < τ.limit) :
    Leads (60 * (n.toNat + 1)) (τ.withFrame f (countFrame o n p q number 0))
      (.send "whileTrue:" [.block p, .block q])
      (τ.withFrame f (countFrame o n p q number n.toNat)) (.answer .nil) := by
  obtain ⟨c, hl, hc⟩ := h.loop (Library.loop "whileTrue:" "ifFalse:", whileSketch inlining)
    List.mem_cons_self
  have harguments : [Value.block p, .block q].length = (whileSketch inlining).arguments := by
    cases inlining <;> rfl
  have hlocals : (whileSketch inlining).locals = 0 := by
    cases inlining <;> rfl
  refine (?_ : Leads (10 + 20 + (10 + 20 + 22) * n.toNat + 2) _ _ _ _).mono (by omega)
  refine .sendMethod hc hl harguments (Nat.lt_of_succ_lt hdepth) fun g number' hg _ => ?_
  rw [hlocals]
  have hne : f ≠ g := ne_of_frames (withFrame_frames_self ..) hg
  have hframe (k : Nat) : (deeper (τ.withFrame f (countFrame o n p q number k))).withFrame g
      (loopFrame p q number') = (τ.deeper.withFrame g (loopFrame p q number')).withFrame f
        (countFrame o n p q number k) := withFrame_comm hne τ.deeper _ _
  have hcond (k : Nat) (b : Bool) (hb : decide ((k : Int) < n) = b) : Leads 10
      ((deeper (τ.withFrame f (countFrame o n p q number k))).withFrame g (loopFrame p q number'))
      (.evaluate p [])
      ((deeper (τ.withFrame f (countFrame o n p q number k))).withFrame g (loopFrame p q number'))
      (.answer (.bool b)) := by
    rw [hframe, ← hb]
    exact condition_leads hp (withFrame_frames_self ..) rfl hdepth h hc₁ rfl
  have hbody (k : Nat) : Leads 20
      ((deeper (τ.withFrame f (countFrame o n p q number k))).withFrame g (loopFrame p q number'))
      (.evaluate q [])
      ((deeper (τ.withFrame f (countFrame o n p q number (k + 1)))).withFrame g
        (loopFrame p q number')) (.answer (Number.reduce (k + 1))) := by
    have hstep := body_leads (ρ := (τ.deeper.withFrame g (loopFrame p q number')).withFrame f
      (countFrame o n p q number k)) hq (withFrame_frames_self ..) rfl hdepth h hc₂ rfl
    rw [withFrame_withFrame] at hstep
    rw [hframe, hframe]
    exact hstep
  have hrounds := Leads.iterate (m := n.toNat) (J := fun _ => .execute ⟨c, g, 0, [], 0⟩)
    (φ := fun k => (deeper (τ.withFrame f (countFrame o n p q number k))).withFrame g
      (loopFrame p q number')) fun k hk => while_round h hc
        (hcond k true (decide_eq_true (by omega))) (hbody k) (Eq.refl τ.classes)
  exact hrounds.trans (while_exit h hc (hcond n.toNat false (decide_eq_false (by omega))) (.refl _)
    (withFrame_frames_eq_none hg) hdepth)

/-- `countTo:` answers the number, or zero if it is negative. -/
theorem count_leads (h : σ.Ready inlining o)
    (hdepth : σ.depth + nesting inlining n .while ≤ σ.limit) :
    Leads (60 * n.toNat + 90) σ (.send "countTo:" [.object o, Number.reduce n]) σ
      (.answer (answer n .while)) := by
  have hdepth' : σ.depth + 3 ≤ σ.limit := hdepth
  obtain ⟨c, hl, hc⟩ := h.method (m := countMethod) (k := countSketch) (by simp [sketches])
  obtain ⟨c₁, hcode₁, hc₁⟩ := hc.block 0 rfl
  obtain ⟨c₂, hcode₂, hc₂⟩ := hc.block 1 rfl
  refine (?_ : Leads (3 + 60 * (n.toNat + 1) + 2 + 14 + 2) _ _ _ _).mono (by omega)
  refine .sendMethod hc hl rfl (by omega) fun f number hf _ => ?_
  refine .pushZero (hc.reads rfl) ?_
  refine .dup (hc.reads rfl) ?_
  refine .popOwn (l := [Number.reduce 0, .nil, .nil]) (hc.reads rfl) (Nat.succ_pos 2) rfl ?_
  refine .drop (hc.reads rfl) ?_
  refine .pushBlock (hc.reads rfl) hcode₁ fun p hp => ?_
  refine .dup (hc.reads rfl) ?_
  refine .popOwn (l := [Number.reduce 0, .block p, .nil]) (hc.reads rfl)
    (Nat.one_lt_succ_succ 1) rfl ?_
  refine .drop (hc.reads rfl) ?_
  refine .pushBlock (hc.reads rfl) hcode₂ fun q hq => ?_
  refine .dup (hc.reads rfl) ?_
  refine .popOwn (l := [Number.reduce 0, .block p, .block q]) (hc.reads rfl)
    (Nat.lt_succ_self 2) rfl ?_
  refine .drop (hc.reads rfl) ?_
  refine .pushOwn (hc.reads rfl) rfl ?_
  refine .pushOwn (hc.reads rfl) rfl ?_
  refine .send (hc.sends rfl) [_, _] rfl rfl (loop_leads (o := o) (n := n) h.hosts hc₁ hc₂
    (withClosure_closures (withClosure_closures_self ..) hq) (withClosure_closures_self ..)
      hdepth') ?_
  refine .drop (hc.reads rfl) ?_
  refine .pushOwn (hc.reads rfl) rfl ?_
  rw [answer, ← Int.ofNat_toNat]
  exact .answer (hc.reads rfl) ((le_withClosure hp).trans (le_withClosure hq)) hf

end Parley.Workload
