import Parley.Proofs.Hosting
import Parley.Proofs.Workloads.Answers

/-!
# Searches
-/

namespace Parley.Workload

open Scene

variable {σ σ' ρ : Scene} {j' : Job} {o : ObjectRef} {c : Code} {f : FrameRef} {F : Frame}
  {r : BlockRef} {m : Nat} {inlining : Bool} {i n : Int}

/-! ### One number -/

/-- The branch for a number that is looked for returns the number from the method two frames out. -/
theorem found_leads {g : FrameRef} {G : Frame} {outer : List FrameRef} {v : Value}
    (hc : c.Follows found) (hr : ρ.closures r = some ⟨c, some g⟩) (hG : ρ.frames g = some G)
    (houter : G.outer = f :: outer) (hv : (G.slots .argument)[1]? = some v)
    (hF : ρ.frames f = some F) (hmarker : F.marker = .onStack) (hdepth : ρ.depth < ρ.limit) :
    Leads 3 ρ (.evaluate r []) ρ (.unwind (.nonLocal F.activation v)) := by
  refine .evaluate hc hr (around_some hG) rfl hdepth fun q number hq hnumber => ?_
  rw [houter]
  refine .pushOuter (hc.reads rfl) hq rfl hG hv ?_
  exact (Leads.returnNonLocal (hc.reads rfl) (.refl _) hq rfl hF hmarker (hnumber f F hF).ne).weaken
    (le_withFrame hq)

section Test

variable (h : ρ.classes.Hosts inlining) (hc : c.Follows (testSketch inlining))
  (hr : ρ.closures r = some ⟨c, some f⟩) (hF : ρ.frames f = some F)
  (hn : (F.slots .argument)[1]? = some (Number.reduce n)) (hdepth : ρ.depth < ρ.limit)

include h hc hr hF hn hdepth

/-- The square of the number is compared with the argument of `detect:`. -/
theorem test_compares (hnext : ∀ g number, ρ.frames g = none →
      (∀ g G, ρ.frames g = some G → G.activation < number) → Leads m
        (ρ.deeper.withFrame g ⟨number, #[.block r, Number.reduce i], #[], f :: F.outer, .onStack⟩)
        (.execute ⟨c, g, 13, [.bool (n < i * i)], 0⟩) σ' j') :
    Leads (m + 12) ρ (.evaluate r [Number.reduce i]) σ' j' := by
  have hc' : c.Follows testStart := by
    cases inlining with
    | true => exact Code.Follows.part hc ⟨_, rfl⟩ ⟨_, rfl⟩
    | false => exact Code.Follows.part hc ⟨_, rfl⟩ ⟨_, rfl⟩
  refine .evaluate hc' hr (around_some hF) rfl hdepth fun g number hg hnumber => ?_
  refine .pushOwn (hc'.reads rfl) rfl ?_
  refine .pushOwn (hc'.reads rfl) rfl ?_
  refine .ask (hc'.sends rfl) [_, _] rfl rfl (.arith .mul (h.arith .mul rfl) rfl) ?_
  refine .pushOuter (hc'.reads rfl) hg rfl hF hn ?_
  refine .ask (hc'.sends rfl) [_, _] rfl rfl (.compare .gt (h.compare .gt)) ?_
  rw [Number.holds_gt, Arith.exact]
  exact hnext g number hg hnumber

/-- A number is passed by of which the square is not greater. -/
theorem test_misses (hi : i * i ≤ n) :
    Leads 20 ρ (.evaluate r [Number.reduce i]) ρ (.answer .nil) := by
  refine test_compares h hc hr hF hn hdepth fun g _ hg _ => ?_
  rw [decide_eq_false (not_lt.2 hi)]
  cases inlining with
  | true =>
    replace hc : c.Follows testInlined := hc
    refine .jumpOn (hc.reads rfl) ?_
    exact .answer (hc.reads rfl) (.refl _) hg
  | false =>
    replace hc : c.Follows testClosed := hc
    obtain ⟨c₁, hcode₁, -⟩ := hc.block 2 rfl
    refine .pushBlock (hc.reads rfl) hcode₁ fun r₁ hr₁ => ?_
    refine .ask (hc.sends rfl) [_, _] rfl rfl (.ifTrueNot (h.finds (by decide))) ?_
    exact .answer (hc.reads rfl) (le_withClosure hr₁) hg

/-- A number of which the square is greater is returned from `detect:`. -/
theorem test_hits (hmarker : F.marker = .onStack) (hi : n < i * i)
    (hnested : inlining = false → ρ.depth + 1 < ρ.limit) :
    Leads 20 ρ (.evaluate r [Number.reduce i]) ρ
      (.unwind (.nonLocal F.activation (Number.reduce i))) := by
  refine test_compares h hc hr hF hn hdepth fun g number hg hnumber => ?_
  rw [decide_eq_true hi]
  have hne : F.activation ≠ number := (hnumber f F hF).ne
  cases inlining with
  | true =>
    replace hc : c.Follows testInlined := hc
    refine .jumpPast (hc.reads rfl) rfl ?_
    refine .pushOwn (hc.reads rfl) rfl ?_
    exact ((Leads.returnNonLocal (hc.reads rfl) (.refl _) hg rfl hF hmarker hne).weaken
      (le_withFrame hg)).mono (by omega)
  | false =>
    replace hc : c.Follows testClosed := hc
    obtain ⟨c₁, hcode₁, hc₁⟩ := hc.block 2 rfl
    refine .pushBlock (hc.reads rfl) hcode₁ fun r₁ hr₁ => ?_
    refine Leads.mono (.weaken (.sendThrough (hc.sends rfl) [_, _] rfl rfl
      (.ifTrue (h.finds (by decide)) (found_leads hc₁ (withClosure_closures_self ..)
        (withFrame_frames_self ..) rfl rfl (withFrame_frames hF hg) hmarker (hnested rfl))) hne
          (le_withClosure hr₁)) (le_withFrame hg)) (by omega)

end Test

/-! ### All of them -/

/-- There is no number of which the square is greater, or the search has found the least one. -/
theorem firstAbove_cases (n : Int) :
    (firstAbove n = 0 ∧ ∀ i : Nat, 1 ≤ i → i ≤ 100000 → (i * i : Int) ≤ n) ∨
      (1 ≤ firstAbove n ∧ firstAbove n ≤ 100000 ∧ n < firstAbove n * firstAbove n ∧
        ∀ i : Nat, 1 ≤ i → i < firstAbove n → (i * i : Int) ≤ n) := by
  rw [firstAbove]
  cases hfind : (List.range' 1 100000).find? fun i : Nat => n < (i * i : Nat) with
  | none =>
    refine .inl ⟨rfl, fun i hi hle => ?_⟩
    have := List.find?_eq_none.1 hfind i (List.mem_range'_1.2 ⟨hi, by omega⟩)
    simpa using this
  | some m =>
    obtain ⟨hm, hmem, hleast⟩ := List.find?_range'_eq_some.1 hfind
    rw [List.mem_range'_1] at hmem
    refine .inr ⟨hmem.1, by simp only [Option.getD_some]; omega, by
      simpa using hm, fun i hi hlt => ?_⟩
    simpa using hleast i hi hlt

section Each

variable (h : σ.Ready inlining o) (hc : c.Follows (testSketch inlining))
  (hr : σ.closures r = some ⟨c, some f⟩) (hF : σ.frames f = some F)
  (hn : (F.slots .argument)[1]? = some (Number.reduce n)) (hdepth : σ.depth + 1 < σ.limit)

include h hc hr hF hn hdepth

/-- `each:` evaluates the block with all numbers, if none is found. -/
theorem each_passes (hnone : ∀ i : Nat, 1 ≤ i → i ≤ 100000 → (i * i : Int) ≤ n) :
    Leads 3000000 σ (.send "each:" [.object o, .block r]) σ (.answer (.object o)) := by
  obtain ⟨c', hl, hc'⟩ := h.method (m := eachMethod) (k := eachSketch) (by simp [sketches])
  refine .sendMethod hc' hl rfl (by omega) fun g number hg hnumber => ?_
  refine .pushOne (hc'.reads rfl) ?_
  refine .pushConstant (hc'.reads rfl) (hc'.value 0 (v := Number.reduce 100000) rfl) ?_
  refine .pushOwn (hc'.reads rfl) rfl ?_
  have hrounds (G : Frame) : Leads ((20 + 2) * 100000 + 1) _
      (.count 1 100000 r (Number.reduce 1)) _ (.answer (Number.reduce 1)) :=
    .count (m := 100000) (φ := fun _ => σ.deeper.withFrame g G) (by omega) fun k hk => by
      refine ⟨by omega, _, test_misses h.hosts hc hr (withFrame_frames hF hg) hn hdepth ?_⟩
      simpa [add_comm] using hnone (k + 1) (by omega) (by omega)
  refine Leads.mono (n := 2 + ((20 + 2) * 100000 + 1 + 2) + 2) ?_ (by omega)
  refine .send (n := 2) (hc'.sends rfl) [_, _, _] rfl rfl
    (.toDo (x := 1) (y := 100000) (h.hosts.finds (by decide)) rfl rfl (hrounds _)) ?_
  refine .drop (hc'.reads rfl) ?_
  exact (Leads.returnSelf (hc'.reads rfl) (.refl _)).weaken (le_withFrame hg)

/-- It is left by the return of the first number that is found. -/
theorem each_finds (hmarker : F.marker = .onStack)
    (hnested : inlining = false → σ.depth + 2 < σ.limit) (hm : 1 ≤ m) (hle : m ≤ 100000)
    (hhit : n < m * m) (hleast : ∀ i : Nat, 1 ≤ i → i < m → (i * i : Int) ≤ n) :
    Leads 3000000 σ (.send "each:" [.object o, .block r]) σ
      (.unwind (.nonLocal F.activation (Number.reduce m))) := by
  obtain ⟨c', hl, hc'⟩ := h.method (m := eachMethod) (k := eachSketch) (by simp [sketches])
  refine .sendMethod hc' hl rfl (by omega) fun g number hg hnumber => ?_
  refine .pushOne (hc'.reads rfl) ?_
  refine .pushConstant (hc'.reads rfl) (hc'.value 0 (v := Number.reduce 100000) rfl) ?_
  refine .pushOwn (hc'.reads rfl) rfl ?_
  have hrounds (G : Frame) : Leads ((20 + 2) * (m - 1)) _ (.count 1 100000 r (Number.reduce 1)) _
      (.count (1 + (m - 1 : Nat)) 100000 r (Number.reduce 1)) :=
    .countRounds (φ := fun _ => σ.deeper.withFrame g G) fun k hk => by
      refine ⟨by omega, _, test_misses h.hosts hc hr (withFrame_frames hF hg) hn hdepth ?_⟩
      simpa [add_comm] using hleast (k + 1) (by omega) (by omega)
  have hlast (G : Frame) : Leads 22 (σ.deeper.withFrame g G)
      (.count (1 + (m - 1 : Nat)) 100000 r (Number.reduce 1)) (σ.deeper.withFrame g G)
      (.unwind (.nonLocal F.activation (Number.reduce m))) := by
    rw [show (1 + (m - 1 : Nat) : Int) = m by omega]
    exact .countThrough (by omega)
      (test_hits h.hosts hc hr (withFrame_frames hF hg) hn hdepth hmarker hhit hnested)
  refine Leads.mono (.weaken (.sendThrough (hc'.sends rfl) [_, _, _] rfl rfl
    (.toDo (x := 1) (y := 100000) (h.hosts.finds (by decide)) rfl rfl
      ((hrounds _).trans (hlast _))) (hnumber f F hF).ne (.refl _)) (le_withFrame hg)) (by omega)

end Each

/-- `detect:` answers the least number of which the square is greater, or zero. -/
theorem detect_leads (h : σ.Ready inlining o)
    (hdepth : σ.depth + nesting inlining n .nlr ≤ σ.limit) :
    Leads 4000000 σ (.send "detect:" [.object o, Number.reduce n]) σ (.answer (answer n .nlr)) := by
  rw [nesting] at hdepth
  have hdepth' : σ.depth + 3 ≤ σ.limit := by
    split at hdepth <;> omega
  obtain ⟨c, hl, hc⟩ := h.method (m := detectMethod) (k := detectSketch inlining)
    (by simp [sketches])
  obtain ⟨c₁, hcode₁, hc₁⟩ := hc.block 0 rfl
  refine .sendMethod hc hl rfl (by omega) fun f number hf _ => ?_
  refine .pushSelf (hc.reads rfl) (withFrame_frames_self ..) ?_
  refine .pushBlock (hc.reads rfl) hcode₁ fun r hr => ?_
  obtain ⟨hzero, hnone⟩ | ⟨hm, hle, hhit, hleast⟩ := firstAbove_cases n
  · rw [answer, hzero]
    refine Leads.mono (n := 3 + 3000000 + 2) ?_ (by omega)
    refine .send (hc.sends rfl) [_, _] rfl rfl (each_passes ⟨h.hosts, h.receiver, h.array⟩ hc₁
      (withClosure_closures_self ..) (withFrame_frames_self ..) rfl hdepth' hnone) ?_
    refine .drop (hc.reads rfl) ?_
    refine .pushZero (hc.reads rfl) ?_
    exact .answer (hc.reads rfl) (le_withClosure hr) hf
  · have hnested : inlining = false → σ.depth + 4 ≤ σ.limit := by
      rintro rfl
      rwa [if_neg (by simp only [Bool.false_eq_true, false_or]; omega)] at hdepth
    rw [answer]
    exact Leads.mono (.weaken (.sendReturned (hc.sends rfl) [_, _] rfl rfl
      (each_finds ⟨h.hosts, h.receiver, h.array⟩ hc₁ (withClosure_closures_self ..)
        (withFrame_frames_self ..) rfl hdepth' rfl hnested hm hle hhit hleast) (le_withClosure hr))
      (le_withFrame hf)) (by omega)

end Parley.Workload
