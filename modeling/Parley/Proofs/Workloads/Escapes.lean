import Parley.Proofs.Hosting
import Parley.Proofs.Workloads.Answers

/-!
# Escaping blocks
-/

namespace Parley.Workload

open Scene Machine

variable {σ σ' τ : Scene} {j' : Job} {o : ObjectRef} {c m : Code} {f : FrameRef} {F : Frame}
  {n ip b : Nat} {s : Selector} {stack st : List Value} {inlining : Bool}

/-- `makeBlock` answers a block, and returns before the block is evaluated: its frame stays. -/
theorem makeBlock_leads (hs : c.sends? ip = some (false, "makeBlock")) (h : τ.Ready inlining o)
    (hdepth : τ.depth < τ.limit)
    (hnext : ∀ (k : Code) g G r, k.Follows escapingBlock → g ≠ f → τ.frames g = none →
      G.marker = .returnedNormally → τ.closures r = none →
      Leads n (((τ.withClosure r ⟨k, some g⟩).withFrame g G).withFrame f F)
        (.execute ⟨c, f, ip + 2, .block r :: st, b⟩) σ' j') :
    Leads (n + 6) (τ.withFrame f F) (.execute ⟨c, f, ip, .object o :: st, b⟩) σ' j' := by
  obtain ⟨m, hl, hm⟩ := h.method (m := makeBlockMethod) (k := makeBlockSketch) (by simp [sketches])
  obtain ⟨k, hk, hblock⟩ := hm.block 0 rfl
  have harguments : [Value.object o].length = makeBlockSketch.arguments := rfl
  have hpush : m.Reads 0 (.pushBlock true) [0] := hm.reads rfl
  let p : Pending := .sender ⟨c, f, ip + 2, st, b⟩
  have hl' : (τ.withFrame f F).lookup? (argument [.object o] 0) "makeBlock" = some (.method m) := hl
  refine .waiting hs [.object o] rfl rfl ((Leads.look hl' (.refl _ _)).clears ?_)
  refine .instead p trivial fun w _ hw => ?_
  obtain ⟨w', g, number, hg, -, hstep, hw'⟩ := hw.call hm harguments hdepth (p :: _)
  refine ⟨w', _, _, hstep, hw', .instead p (hpush.simple nofun) fun w _ hw => ?_⟩
  obtain ⟨w', r, hr, hstep, hw'⟩ := hw.pushBlock hpush hk (p :: _)
  refine ⟨w', _, _, hstep, hw', (Leads.returnLocal
    (σ := (τ.withFrame f F).withClosure r ⟨k, some g⟩)
    (hm.reads rfl) (.refl _)).clears ?_⟩
  refine .last trivial fun w _ hw => ⟨w, _, _, rfl, hw, ?_⟩
  have hne : g ≠ f := (ne_of_frames (withFrame_frames_self τ f F) hg).symm
  rw [withFrame_frames_of_ne hne] at hg
  have hnext' := hnext k g ⟨number, #[.object o], #[], [], .returnedNormally⟩ r hblock hne hg rfl hr
  rwa [withFrame_comm hne] at hnext'

/-- The block returns from a method that has returned. -/
theorem escapingBlock_leads {g : FrameRef} {G : Frame} {r : BlockRef} {v : Value}
    (hc : c.Follows escapingBlock) (hr : σ.closures r = some ⟨c, some g⟩)
    (hG : σ.frames g = some G) (hmarker : G.marker = .returnedNormally)
    (hdepth : σ.depth < σ.limit) :
    Leads (n + 3) σ (.evaluate r [v]) σ (.unwind (.escaped r v)) := by
  refine .evaluate hc hr (around_some hG) rfl hdepth fun f _ hf _ => ?_
  refine .pushOwn (hc.reads rfl) rfl ?_
  refine ((Leads.escape (hc.reads rfl) (.refl _) hf rfl rfl hG ?_).weaken (le_withFrame hf)).mono
    (Nat.le_add_left 1 n)
  rw [hmarker]
  nofun

/-- `escape:` answers what the receiver answers when it is told of the block. -/
theorem escape_leads (h : σ.Ready inlining o) {v : Value} (i : Int)
    (hdepth : σ.depth + nesting inlining i .escape ≤ σ.limit) :
    Leads 30 σ (.send "escape:" [.object o, v]) σ (.answer (answer i .escape)) := by
  have hdepth' : σ.depth + 1 < σ.limit := hdepth
  obtain ⟨c, hl, hc⟩ := h.method (m := escapeMethod) (k := escapeSketch) (by simp [sketches])
  obtain ⟨m, hm, hreport⟩ := h.method (m := escapedMethod) (k := escapedSketch) (by simp [sketches])
  refine .sendMethod hc hl rfl (by omega) fun f number hf _ => ?_
  refine .pushSelf (hc.reads rfl) (withFrame_frames_self ..) ?_
  refine makeBlock_leads (hc.sends rfl) ⟨h.hosts, h.receiver, h.array⟩ hdepth'
    fun k g G r hk hne hg hmarker hr => ?_
  refine .dup (hc.reads rfl) ?_
  refine .popOwn (l := [.block r]) (hc.reads rfl) Nat.one_pos rfl ?_
  refine .drop (hc.reads rfl) ?_
  refine .pushOwn (hc.reads rfl) rfl ?_
  refine .pushOwn (hc.reads rfl) rfl ?_
  let τ := (σ.deeper.withClosure r ⟨k, some g⟩).withFrame g G
  have hvalue (F : Frame) : Leads 5 (τ.withFrame f F) (.send "value:" [.block r, v])
      (τ.withFrame f F) (.unwind (.escaped r v)) :=
    .value (h.hosts.finds (by decide)) rfl (escapingBlock_leads hk
      (withClosure_closures_self ..) ((withFrame_frames_of_ne hne).trans (withFrame_frames_self ..))
      hmarker hdepth')
  have hescaped (F : Frame) : Leads 3 (τ.withFrame f F)
      (.invoke (.method m) [.object o, .block r]) (τ.withFrame f F)
        (.answer (.symbol "escaped")) := by
    refine .call hreport rfl hdepth' fun g' _ hg' _ => ?_
    refine .pushConstant (hreport.reads rfl) (hreport.value 0 rfl) ?_
    exact .answer (hreport.reads rfl) (.refl _) hg'
  let F : Frame := ⟨number, #[.object o, v], #[.block r], [], .onStack⟩
  refine (Leads.sendEscaped (n := 1) (F := F) (hc.sends rfl) [_, _] rfl rfl (hvalue F)
    (withFrame_frames_self ..) rfl hm (hescaped F) ?_).mono (by omega)
  exact .answer (hc.reads rfl) ((le_withClosure hr).trans (le_withFrame hg)) hf

end Parley.Workload
