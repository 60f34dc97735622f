import Parley.Proofs.Hosting
import Parley.Proofs.Workloads.Answers

/-!
# Factorials
-/

namespace Parley.Workload

open Scene Nat

variable {σ : Scene} {o : ObjectRef} {n : Nat}

theorem factorial_eq {i : Int} (hi : 1 < i) :
    i * ((i - 1).toNat ! : Nat) = (i.toNat ! : Nat) := by
  obtain ⟨m, rfl⟩ : ∃ m : Nat, i = m + 1 := ⟨(i - 1).toNat, by omega⟩
  have h₁ : ((m : Int) + 1 - 1).toNat = m := by omega
  have h₂ : ((m : Int) + 1).toNat = m + 1 := by omega
  rw [h₁, h₂, Nat.factorial_succ, Nat.cast_mul, Nat.cast_succ]

theorem factorial_of_le_one {i : Int} (hi : i ≤ 1) : i.toNat ! = 1 := by
  have : i.toNat = 0 ∨ i.toNat = 1 := by omega
  obtain h | h := this <;> rw [h] <;> rfl

/-! ### Branches inlined -/

/-- An activation answers the factorial if the message that it sends does. -/
theorem fact_inlined (h : σ.Ready true o) {i : Int} (hdepth : σ.depth < σ.limit)
    (hcall : 1 < i → ∀ τ : Scene, τ.Ready true o → τ.depth = σ.depth + 1 → τ.limit = σ.limit →
      Leads n τ (.send "fact:" [.object o, Number.reduce (i - 1)]) τ
        (.answer (Number.reduce ((i - 1).toNat ! : Nat)))) :
    Leads (n + 40) σ (.send "fact:" [.object o, Number.reduce i]) σ
      (.answer (Number.reduce (i.toNat ! : Nat))) := by
  obtain ⟨c, hl, hc⟩ := h.method (m := factMethod) (k := factInlined) (by simp [sketches])
  refine .sendMethod hc hl rfl hdepth fun f number hf _ => ?_
  refine .pushOwn (hc.reads rfl) rfl ?_
  refine .pushOne (hc.reads rfl) ?_
  refine .ask (hc.sends rfl) [_, _] rfl rfl (.compare .le (h.hosts.compare .le)) ?_
  rw [Number.holds_le]
  by_cases hone : i ≤ 1
  · rw [decide_eq_true hone, factorial_of_le_one hone]
    refine .jumpPast (hc.reads rfl) rfl ?_
    refine .pushOne (hc.reads rfl) ?_
    refine .jump (hc.reads rfl) ?_
    exact .answer (hc.reads rfl) (.refl _) hf
  · rw [decide_eq_false hone, ← factorial_eq (not_le.1 hone)]
    refine .jumpOn (hc.reads rfl) ?_
    refine .pushOwn (hc.reads rfl) rfl ?_
    refine .pushOwn (hc.reads rfl) rfl ?_
    refine .pushOwn (hc.reads rfl) rfl ?_
    refine .pushOne (hc.reads rfl) ?_
    refine .ask (hc.sends rfl) [_, _] rfl rfl (.arith .sub (h.hosts.arith .sub rfl) rfl) ?_
    refine (?_ : Leads (5 + n + 2) _ _ _ _).mono (by omega)
    refine .send (hc.sends rfl) [_, _] rfl rfl (hcall (not_le.1 hone) _ (h.inside f _) rfl rfl) ?_
    refine .ask (hc.sends rfl) [_, _] rfl rfl (.arith .mul (h.hosts.arith .mul rfl) rfl) ?_
    exact .answer (hc.reads rfl) (.refl _) hf

/-! ### Branches in blocks -/

section Blocks

variable {τ : Scene} {c : Code} {r : BlockRef} {f : FrameRef} {F : Frame}

theorem factOne_leads (hc : c.Follows factOne) (hr : τ.closures r = some ⟨c, none⟩)
    (hdepth : τ.depth < τ.limit) :
    Leads (n + 3) τ (.evaluate r []) τ (.answer (Number.reduce 1)) := by
  refine .evaluate hc hr rfl rfl hdepth fun g _ hg _ => ?_
  refine .pushOne (hc.reads rfl) ?_
  exact .answer (hc.reads rfl) (.refl _) hg

/-- The block sends the message for the number before, and multiplies. -/
theorem factProduct_leads {i p : Int} (h : τ.Ready false o) (hc : c.Follows factProduct)
    (hr : τ.closures r = some ⟨c, some f⟩) (hF : τ.frames f = some F)
    (hself : (F.slots .argument)[0]? = some (.object o))
    (hi : (F.slots .argument)[1]? = some (Number.reduce i))
    (hdepth : τ.depth < τ.limit)
    (hcall : ∀ g G, Leads n (τ.deeper.withFrame g G)
      (.send "fact:" [.object o, Number.reduce (i - 1)]) (τ.deeper.withFrame g G)
        (.answer (Number.reduce p))) :
    Leads (n + 16) τ (.evaluate r []) τ (.answer (Number.reduce (i * p))) := by
  refine .evaluate hc hr (around_some hF) rfl hdepth fun g _ hg _ => ?_
  refine .pushOuter (hc.reads rfl) hg rfl hF hi ?_
  refine .pushOuter (hc.reads rfl) hg rfl hF hself ?_
  refine .pushOuter (hc.reads rfl) hg rfl hF hi ?_
  refine .pushOne (hc.reads rfl) ?_
  refine .ask (hc.sends rfl) [_, _] rfl rfl (.arith .sub (h.hosts.arith .sub rfl) rfl) ?_
  refine (?_ : Leads (5 + n + 2) _ _ _ _).mono (by omega)
  refine .send (hc.sends rfl) [_, _] rfl rfl (hcall g _) ?_
  refine .ask (hc.sends rfl) [_, _] rfl rfl (.arith .mul (h.hosts.arith .mul rfl) rfl) ?_
  exact .answer (hc.reads rfl) (.refl _) hg

end Blocks

/-- An activation answers the factorial if the message that a block in it sends does. -/
theorem fact_closed (h : σ.Ready false o) {i : Int} (hdepth : σ.depth + 1 < σ.limit)
    (hcall : 1 < i → ∀ τ : Scene, τ.Ready false o → τ.depth = σ.depth + 2 → τ.limit = σ.limit →
      Leads n τ (.send "fact:" [.object o, Number.reduce (i - 1)]) τ
        (.answer (Number.reduce ((i - 1).toNat ! : Nat)))) :
    Leads (n + 40) σ (.send "fact:" [.object o, Number.reduce i]) σ
      (.answer (Number.reduce (i.toNat ! : Nat))) := by
  obtain ⟨c, hl, hc⟩ := h.method (m := factMethod) (k := factClosed) (by simp [sketches])
  obtain ⟨c₁, hcode₁, hc₁⟩ := hc.block 1 rfl
  obtain ⟨c₂, hcode₂, hc₂⟩ := hc.block 2 rfl
  refine .sendMethod hc hl rfl (by omega) fun f number hf _ => ?_
  refine .pushOwn (hc.reads rfl) rfl ?_
  refine .pushOne (hc.reads rfl) ?_
  refine .ask (hc.sends rfl) [_, _] rfl rfl (.compare .le (h.hosts.compare .le)) ?_
  refine .pushBlock (hc.reads rfl) hcode₁ fun r₁ hr₁ => ?_
  refine .pushBlock (hc.reads rfl) hcode₂ fun r₂ hr₂ => ?_
  refine (?_ : Leads (1 + (n + 18) + 2) _ _ _ _).mono (by omega)
  rw [Number.holds_le]
  by_cases hone : i ≤ 1
  · rw [decide_eq_true hone, factorial_of_le_one hone]
    refine .send (hc.sends rfl) [_, _, _] rfl rfl
      (.ifTrueIfFalse (h.hosts.finds (by decide)) (factOne_leads hc₁
        (withClosure_closures (withClosure_closures_self ..) hr₂) hdepth)) ?_
    exact .answer (hc.reads rfl) ((le_withClosure hr₁).trans (le_withClosure hr₂)) hf
  · rw [decide_eq_false hone, ← factorial_eq (not_le.1 hone)]
    refine .send (hc.sends rfl) [_, _, _] rfl rfl
      (.ifTrueIfFalse (h.hosts.finds (by decide)) (factProduct_leads ⟨h.hosts, h.receiver, h.array⟩
        hc₂ (withClosure_closures_self ..) (withFrame_frames_self ..) rfl rfl hdepth fun g G =>
          hcall (not_le.1 hone) _ ⟨h.hosts, h.receiver, h.array⟩ rfl rfl)) ?_
    exact .answer (hc.reads rfl) ((le_withClosure hr₁).trans (le_withClosure hr₂)) hf

/-- The depth that an activation of `fact:` takes, with the blocks in it. -/
def factDepth (inlining : Bool) : Nat :=
  if inlining then 1 else 2

/-- An activation answers the factorial if the message for the number before does. -/
theorem fact_step {inlining : Bool} {i : Int} (h : σ.Ready inlining o)
    (hdepth : σ.depth + factDepth inlining ≤ σ.limit)
    (hcall : 1 < i → ∀ τ : Scene, τ.Ready inlining o → τ.depth = σ.depth + factDepth inlining →
      τ.limit = σ.limit → Leads n τ (.send "fact:" [.object o, Number.reduce (i - 1)]) τ
        (.answer (Number.reduce ((i - 1).toNat ! : Nat)))) :
    Leads (n + 40) σ (.send "fact:" [.object o, Number.reduce i]) σ
      (.answer (Number.reduce (i.toNat ! : Nat))) := by
  cases inlining with
  | true => exact fact_inlined h hdepth hcall
  | false => exact fact_closed h hdepth hcall

/-- By an activation for every number down to one. -/
theorem fact_descends {inlining : Bool} (m : Nat) {i : Int} (h : σ.Ready inlining o)
    (hi : i ≤ m + 1) (hdepth : σ.depth + factDepth inlining * (m + 1) ≤ σ.limit) :
    Leads (40 * (m + 1)) σ (.send "fact:" [.object o, Number.reduce i]) σ
      (.answer (Number.reduce (i.toNat ! : Nat))) := by
  induction m generalizing σ i with
  | zero => exact (fact_step (n := 0) h (by omega) (by omega)).mono (by omega)
  | succ m ih =>
    rw [Nat.mul_succ] at hdepth
    refine (fact_step (n := 40 * (m + 1)) h (by omega) fun _ τ hτ hτdepth hτlimit => ?_).mono
      (by omega)
    exact ih hτ (by push_cast at hi; omega) (by omega)

/-- `fact:` answers the factorial. -/
theorem fact_leads {inlining : Bool} {i : Int} (h : σ.Ready inlining o)
    (hdepth : σ.depth + nesting inlining i .fact ≤ σ.limit) :
    Leads (40 * i.toNat + 40) σ (.send "fact:" [.object o, Number.reduce i]) σ
      (.answer (answer i .fact)) := by
  have hsucc : max 1 i.toNat = max 1 i.toNat - 1 + 1 := by omega
  refine (fact_descends (max 1 i.toNat - 1) h (by omega) ?_).mono (by omega)
  rwa [← hsucc]

end Parley.Workload
