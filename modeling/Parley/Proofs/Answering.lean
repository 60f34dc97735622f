import Parley.Proofs.Founding
import Parley.Proofs.Workloads.Counts
import Parley.Proofs.Workloads.Escapes
import Parley.Proofs.Workloads.Factorials
import Parley.Proofs.Workloads.Searches
import Parley.Proofs.Workloads.Sums
import Parley.Proofs.Workloads.Texts

/-!
# The workloads answer what they compute

Wherever a workload is run in a world that hosts it, it answers its mathematical result, if there is
room for the activations that it nests (`World.Hosts.run_eq`). A new world comes to host the
workloads, and goes on to after each run.
-/

namespace Parley

open Workload

variable {w : World} {inlining : Bool} {limit : Nat}

/-- How many steps are enough for a workload. -/
def Workload.budget (n : Int) : Nat :=
  60 * n.toNat + 4000000

theorem Workload.budget_le (n : Int64) : budget n.toInt ≤ allowance := by
  have hn : n.toInt.toNat < 2 ^ 63 := by
    have := n.toInt_lt
    omega
  have hallowance : allowance = 2 ^ 100 := rfl
  rw [budget, hallowance]
  omega

/-- The message of every workload leads to its answer. -/
theorem Scene.Ready.leads {σ : Scene} {o : ObjectRef} (h : σ.Ready inlining o) (workload : Workload)
    (n : Int64) (hdepth : σ.depth + nesting inlining n.toInt workload ≤ σ.limit) :
    σ.Leads (budget n.toInt) (.send workload.selector [.object o, .int n]) σ
      (.answer (answer n.toInt workload)) := by
  rw [← Number.reduce_toInt, budget]
  cases workload with
  | fact => exact (fact_leads h hdepth).mono (by omega)
  | loop => exact (sum_leads h hdepth).mono (by omega)
  | poly => exact (poly_leads h hdepth).mono (by omega)
  | escape => exact (escape_leads h n.toInt hdepth).mono (by omega)
  | nlr => exact (detect_leads h hdepth).mono (by omega)
  | «while» => exact (count_leads h hdepth).mono (by omega)

namespace World

/-- What is known of a world in which nothing is in progress, with an instance of `Bench`. -/
def scene (w : World) (o : ObjectRef) : Scene where
  classes := w.classes
  globals := w.globals
  limit := w.settings.maxDepth
  depth := 0
  frames _ := none
  closures _ := none
  arrays _ := none
  instances i := if i = o then some bench else none

theorem Hosts.ready (h : w.Hosts inlining limit) (o : ObjectRef) : (w.scene o).Ready inlining o :=
  ⟨h.classes, if_pos rfl, h.array⟩

/-- A new instance is known, and nothing else is. -/
theorem Hosts.holds (h : w.Hosts inlining limit) :
    (w.scene w.heap.instances.size).Holds (w.newInstance Workload.bench).2 := by
  refine ⟨rfl, rfl, h.handler, rfl, h.idle, nofun, nofun, nofun, fun o c hc => ?_, nofun⟩
  obtain ⟨rfl, hbench⟩ := Option.ite_none_right_eq_some.1 hc
  show Instance.cls (Array.getD (Array.push _ _) _ _) = c
  rw [Array.getD_eq_getD_getElem?, Array.getElem?_push_size, Option.getD_some]
  exact Option.some.inj hbench

/-- What is known of a world after a run is enough for the next one. -/
theorem Hosts.of_holds (h : w.Hosts inlining limit) {w' : World} {s : Stock} {o : ObjectRef}
    (hw' : w'.Sound s) (hclasses : w'.classes = w.classes) (hholds : (w.scene o).Holds w'.plain) :
    w'.Hosts inlining limit where
  sound := ⟨s, hw'⟩
  mirrored := hclasses ▸ h.mirrored
  classes := hclasses ▸ h.classes
  bench := hclasses ▸ h.bench
  array := (congrArg (Globals.read? · "Array") hholds.globals).trans h.array
  handler := hholds.handler
  limit := hholds.limit.trans h.limit
  idle := hholds.depth

theorem Hosts.install_eq (h : w.Hosts inlining limit) :
    Workload.install w = (.ok Workload.bench, w) := by
  rw [Workload.install, h.bench]

/-- There is a class for new instances. -/
theorem Hosts.newInstance_sound (h : w.Hosts inlining limit) :
    ∃ s, (w.newInstance Workload.bench).2.Sound s := by
  obtain ⟨s, hs⟩ := h.sound
  have hbench : Workload.bench < w.classes.next := hs.next_eq ▸ hs.classes.byName?_lt h.bench
  obtain ⟨s', -, hnew⟩ := (Change.newInstance hbench).sound hs
  exact ⟨s', hnew⟩

/-- The reference machine attains the result of a workload. -/
theorem Hosts.attains (h : w.Hosts inlining limit) (workload : Workload) (n : Int64)
    (hdepth : nesting inlining n.toInt workload ≤ limit) :
    Machine.Attains (fun m => m.Answers (answer n.toInt workload) ∧
        (w.scene w.heap.instances.size).Holds m.world) (budget n.toInt)
      ⟨(w.newInstance Workload.bench).2.plain,
        .send workload.selector [(w.newInstance Workload.bench).1, .int n], []⟩ := by
  have hroom : (w.scene w.heap.instances.size).depth + nesting inlining n.toInt workload ≤
      (w.scene w.heap.instances.size).limit := by
    show 0 + _ ≤ w.settings.maxDepth
    rw [h.limit, Nat.zero_add]
    exact hdepth
  have hleads := (h.ready w.heap.instances.size).leads workload n hroom
  exact (hleads _ 0 _ [] h.holds fun w' hw' => .here ⟨⟨rfl, rfl⟩, hw'.plain⟩).mono
    (Nat.zero_add _).le

/-- A workload answers its result, and the world hosts the workloads as before. -/
theorem Hosts.run_eq (h : w.Hosts inlining limit) (workload : Workload) (n : Int64)
    (hdepth : nesting inlining n.toInt workload ≤ limit) :
    ∃ w', workload.run n w = (.ok (answer n.toInt workload), w') ∧ w'.Hosts inlining limit := by
  obtain ⟨s, hnew⟩ := h.newInstance_sound
  have hjob : Job.Sound s (.send workload.selector [(w.newInstance Workload.bench).1, .int n]) :=
    List.forall_mem_cons.2 ⟨trivial, List.forall_mem_singleton.2 trivial⟩
  obtain ⟨w', hresult, hw', hclasses, hholds⟩ := result_of_attains hnew h.mirrored hjob
    (budget_le n) (h.attains workload n hdepth)
  refine ⟨w', ?_, h.of_holds hw' hclasses hholds⟩
  rw [Workload.run, h.install_eq]
  dsimp only
  rw [hresult]

end World

/-- The workloads answer their mathematical results in a new world, however it is set up, if there
    is room for the activations that they nest, and answer the same when they are run again. -/
theorem Workload.run_boot_answers (settings : Settings) (sink : Sink) (watched : Bool)
    (workload : Workload) (n : Int64)
    (hdepth : nesting settings.inlining n.toInt workload ≤ settings.maxDepth) :
    ∃ w₁ w₂, workload.run n (.boot settings .standard sink watched) =
        (.ok (answer n.toInt workload), w₁) ∧
      workload.run n w₁ = (.ok (answer n.toInt workload), w₂) := by
  obtain ⟨w, hfounds, hw⟩ := World.boot_founds settings sink watched
  obtain ⟨w₁, hrun, hw₁⟩ := hw.run_eq workload n hdepth
  obtain ⟨w₂, hagain, -⟩ := hw₁.run_eq workload n hdepth
  refine ⟨w₁, w₂, ?_, hagain⟩
  rw [Workload.run, hw.install_eq] at hrun
  rw [Workload.run, hfounds.install_eq]
  exact hrun

/-- The factorial of 21 is too large for a small integer. -/
theorem Workload.run_boot_fact : ∃ w₁ w₂,
    Workload.fact.run 21 (.boot .standard .standard .kept false) =
        (.ok (.big 51090942171709440000), w₁) ∧
      Workload.fact.run 21 w₁ = (.ok (.big 51090942171709440000), w₂) := by
  have hdepth : nesting Settings.standard.inlining (Int64.toInt 21) .fact ≤ 10000 := by decide
  have hanswer : answer (Int64.toInt 21) .fact = .big 51090942171709440000 := by decide +kernel
  rw [← hanswer]
  exact Workload.run_boot_answers .standard .kept false .fact 21 hdepth

end Parley
