import Parley.Proofs.Hosting
import Parley.Proofs.Workloads.Answers

/-!
# Lengths of texts
-/

namespace Parley.Workload

open Scene

variable {σ σ' τ : Scene} {j' : Job} {o : ObjectRef} {c : Code} {f : FrameRef} {a : ArrayRef}
  {n ip b : Nat} {st : List Value} {inlining : Bool}

/-- The receivers that `poly:` has in its array. -/
def receivers : List Value :=
  [.int 1, .double (.nearest false 5 2), .string (.string 0) "abc", .symbol "sym"]

theorem display?_int (w : World) (i : Int64) : w.display? (.int i) = some i.toInt.repr := by
  rw [World.display?, World.displayIn?]

theorem display?_double (w : World) (d : Double) : w.display? (.double d) = some d.text := by
  rw [World.display?, World.displayIn?]

theorem display?_string (w : World) (owner : Owner) (s : String) :
    w.display? (.string owner s) = some s := by
  rw [World.display?, World.displayIn?]

theorem display?_symbol (w : World) (s : Selector) : w.display? (.symbol s) = some s.hashed := by
  rw [World.display?, World.displayIn?]

/-- Each of them has a text, of which the length is known. -/
theorem receivers_text (i : Nat) : ∃ v c text, receivers[i % 4]? = some v ∧
    (∀ σ : Scene, σ.classOf? v = some c) ∧ (c, "printString", .printString) ∈ primitives ∧
      (∀ w : World, w.display? v = some text) ∧
        countValue text.length = Number.reduce (printedLength i) := by
  have hcases : i % 4 = 0 ∨ i % 4 = 1 ∨ i % 4 = 2 ∨ i % 4 = 3 := by omega
  obtain h | h | h | h := hcases <;> rw [h, printedLength, h]
  · exact ⟨_, _, _, rfl, fun _ => rfl, by decide, (display?_int · _), by decide⟩
  · exact ⟨_, _, _, rfl, fun _ => rfl, by decide, (display?_double · _), by decide⟩
  · exact ⟨_, _, _, rfl, fun _ => rfl, by decide, (display?_string · _ _),
      by decide⟩
  · exact ⟨_, _, _, rfl, fun _ => rfl, by decide, (display?_symbol · _), by decide⟩

/-- A receiver is taken out of the array, and asked for its text and that for its length. -/
theorem length_leads {i : Nat} {x : Int64} {y : UInt8} (h : σ.classes.Hosts inlining)
    (ha : σ.arrays a = some receivers.toArray) (hx : x.toInt = i)
    (hfour : c.Reads ip .pushConstant [y])
    (hvalue : c.program.literals[y.toNat]? = some (.value (.int 4)))
    (hrem : c.sends? (ip + 2) = some (false, "\\\\")) (hone : c.Reads (ip + 4) .pushOne [])
    (hadd : c.sends? (ip + 5) = some (false, "+")) (hat : c.sends? (ip + 7) = some (false, "at:"))
    (hprint : c.sends? (ip + 9) = some (false, "printString"))
    (hlength : c.sends? (ip + 11) = some (false, "length"))
    (hnext : Leads n σ (.execute ⟨c, f, ip + 13, Number.reduce (printedLength i) :: st, b⟩) σ' j') :
    Leads (n + 22) σ (.execute ⟨c, f, ip, Number.reduce i :: .array a :: st, b⟩) σ' j' := by
  obtain ⟨v, cls, text, hv, hc, hp, htext, hcount⟩ := receivers_text i
  have hone_le : (1 : Int) ≤ i % 4 + 1 := by omega
  have hle_four : (i % 4 + 1 : Int) ≤ Int64.toInt 4 := by
    rw [show Int64.toInt 4 = 4 from rfl]
    omega
  obtain ⟨p, hplace⟩ := Number.exists_toInt_eq (by omega) hle_four
  have hv' : receivers[((i % 4 + 1 : Int)).toNat - 1]? = some v := by
    rwa [show (i % 4 + 1 : Int).toNat - 1 = i % 4 by omega]
  refine .pushConstant hfour hvalue ?_
  refine .ask hrem [_, _] rfl rfl (.rem (b := 4) (y := 4) (h.finds (by decide)) hx rfl
    (by omega) (by omega)) ?_
  refine .pushOne hone ?_
  refine .ask hadd [_, _] rfl rfl (.arith .add (h.arith .add rfl) rfl) ?_
  refine .ask hat [_, _] rfl rfl (.at (h.finds (by decide)) ha hplace hone_le hv') ?_
  refine .sendPrintString hprint (hc σ) (h.finds hp) (fun w _ => htext w) fun owner => ?_
  refine .ask hlength [_] rfl rfl (.length (h.finds (by decide))) ?_
  rwa [hcount]

/-! ### The array -/

/-- The array is made and filled. -/
theorem filling_leads {l number : Nat} {arguments rest : List Value} {outer : List FrameRef}
    (h : τ.Ready inlining o) (hc : c.Follows (polyFilling l))
    (hnext : ∀ a, τ.arrays a = none → Leads n
      ((τ.withArray a receivers.toArray).withFrame f ⟨number, arguments.toArray,
        (.array a :: Number.reduce 0 :: rest).toArray, outer, .onStack⟩)
      (.execute ⟨c, f, 55, [], b⟩) σ' j') :
    Leads (n + 46) (τ.withFrame f ⟨number, arguments.toArray, (.nil :: .nil :: rest).toArray, outer,
      .onStack⟩) (.execute ⟨c, f, 0, [], b⟩) σ' j' := by
  have hput {σ : Scene} (hσ : σ.classes = τ.classes) :
      σ.classes.Finds Core.array "at:put:" .atPut := by
    rw [hσ]
    exact h.hosts.finds (by decide)
  refine .pushGlobal (hc.reads rfl) (hc.global 0 rfl) h.array ?_
  refine .pushConstant (hc.reads rfl) (hc.value 1 rfl) ?_
  refine .sendNewArray (hc.sends rfl) (h.hosts.finds (by decide)) h.hosts.arrayClass
    (by decide) fun a ha => ?_
  refine .dup (hc.reads rfl) ?_
  refine .popOwn (l := .array a :: .nil :: rest) (hc.reads rfl) (Nat.succ_pos _) rfl ?_
  refine .drop (hc.reads rfl) ?_
  refine .pushOwn (hc.reads rfl) rfl ?_
  refine .pushOne (hc.reads rfl) ?_
  refine .pushOne (hc.reads rfl) ?_
  refine .ask (hc.sends rfl) [_, _, _] rfl rfl (.atPut (i := 1) (l := [.nil, .nil, .nil, .nil])
    (m := [.int 1, .nil, .nil, .nil]) (hput rfl) (withArray_arrays_self ..) (by decide) (by decide)
    rfl) ?_
  refine .drop (hc.reads rfl) ?_
  refine .pushOwn (hc.reads rfl) rfl ?_
  refine .pushConstant (hc.reads rfl) (hc.value 4 rfl) ?_
  refine .pushConstant (hc.reads rfl) (hc.value 5 rfl) ?_
  refine .ask (hc.sends rfl) [_, _, _] rfl rfl (.atPut
    (m := [.int 1, .double (.nearest false 5 2), .nil, .nil]) (hput rfl)
    (withArray_arrays_self ..) (by decide) (by decide) rfl) ?_
  refine .drop (hc.reads rfl) ?_
  refine .pushOwn (hc.reads rfl) rfl ?_
  refine .pushConstant (hc.reads rfl) (hc.value 6 rfl) ?_
  refine .pushConstant (hc.reads rfl) (hc.value 7 rfl) ?_
  refine .ask (hc.sends rfl) [_, _, _] rfl rfl (.atPut
    (m := [.int 1, .double (.nearest false 5 2), .string (.string 0) "abc", .nil]) (hput rfl)
    (withArray_arrays_self ..) (by decide) (by decide) rfl) ?_
  refine .drop (hc.reads rfl) ?_
  refine .pushOwn (hc.reads rfl) rfl ?_
  refine .pushConstant (hc.reads rfl) (hc.value 1 rfl) ?_
  refine .pushConstant (hc.reads rfl) (hc.value 8 rfl) ?_
  refine .ask (hc.sends rfl) [_, _, _] rfl rfl (.atPut (m := receivers) (hput rfl)
    (withArray_arrays_self ..) (by decide) (by decide) rfl) ?_
  refine .drop (hc.reads rfl) ?_
  refine .pushZero (hc.reads rfl) ?_
  refine .dup (hc.reads rfl) ?_
  refine .popOwn (l := .array a :: Number.reduce 0 :: rest) (hc.reads rfl)
    (Nat.one_lt_succ_succ _) rfl ?_
  refine .drop (hc.reads rfl) ?_
  simp only [withArray_withArray]
  exact hnext a ha

/-! ### The loop inlined -/

section Inlined

variable {n : Int64} {number : Nat}

/-- The frame of `poly:` after so many rounds. -/
def polyFrame (o : ObjectRef) (limit : Int) (a : ArrayRef) (number k : Nat) : Frame :=
  ⟨number, #[.object o, Number.reduce limit],
    #[.array a, Number.reduce (total printedLength k), variableAfter k], [], .onStack⟩

/-- A round adds the next length. -/
theorem poly_round {k : Nat} (h : σ.classes.Hosts true) (hc : c.Follows polyInlined)
    (ha : σ.arrays a = some receivers.toArray) (hk : k < n.toInt.toNat) :
    Leads 40 (σ.withFrame f (polyFrame o n.toInt a number k))
      (.execute ⟨c, f, 60, [Number.reduce (k + 1), Number.reduce n.toInt, Number.reduce 1], k⟩)
      (σ.withFrame f (polyFrame o n.toInt a number (k + 1)))
      (.execute ⟨c, f, 60, [Number.reduce ((k + 1 : Nat) + 1), Number.reduce n.toInt,
        Number.reduce 1], k + 1⟩) := by
  obtain ⟨x, hx⟩ := Number.exists_toInt_eq (i := (k + 1 : Nat)) (s := n) (by omega) (by omega)
  refine .jumpNotGreater (hc.reads rfl) (by omega) ?_
  refine .dup (hc.reads rfl) ?_
  refine .popOwn (l := [.array a, Number.reduce (total printedLength k), Number.reduce (k + 1)])
    (hc.reads rfl) (Nat.lt_succ_self 2) rfl ?_
  refine .pushOwn (hc.reads rfl) rfl ?_
  refine .pushOwn (hc.reads rfl) rfl ?_
  refine .pushOwn (hc.reads rfl) rfl ?_
  refine length_leads (i := k + 1) h ha hx (hc.reads rfl) (hc.value 1 rfl) (hc.sends rfl)
    (hc.reads rfl) (hc.sends rfl) (hc.sends rfl) (hc.sends rfl) (hc.sends rfl) ?_
  refine .ask (hc.sends rfl) [_, _] rfl rfl (.arith .add (h.arith .add rfl) rfl) ?_
  rw [Arith.exact, ← total_succ]
  refine .dup (hc.reads rfl) ?_
  refine .popOwn
    (l := [.array a, Number.reduce (total printedLength (k + 1)), Number.reduce (k + 1)])
    (hc.reads rfl) (Nat.one_lt_succ_succ 1) rfl ?_
  refine .drop (hc.reads rfl) ?_
  refine .inc (hc.reads rfl) ?_
  refine .jumpBack (hc.reads rfl) ?_
  rw [Nat.cast_succ]
  exact (Leads.refl _ _).mono (Nat.zero_le _)

theorem poly_inlined (h : σ.Ready true o) (hdepth : σ.depth < σ.limit) :
    Leads (40 * n.toInt.toNat + 60) σ (.send "poly:" [.object o, Number.reduce n.toInt]) σ
      (.answer (Number.reduce (total printedLength n.toInt.toNat))) := by
  obtain ⟨c, hl, hc⟩ := h.method (m := polyMethod) (k := polyInlined) (by simp [sketches])
  refine (?_ : Leads (4 + 40 * n.toInt.toNat + 3 + 46 + 2) _ _ _ _).mono (by omega)
  refine .sendMethod hc hl rfl hdepth fun f number hf _ => ?_
  refine filling_leads ⟨h.hosts, h.receiver, h.array⟩ (hc.part ⟨_, rfl⟩ ⟨_, rfl⟩) fun a ha => ?_
  refine .pushOne (hc.reads rfl) ?_
  refine .pushOwn (hc.reads rfl) rfl ?_
  refine .dupSecond (hc.reads rfl) ?_
  have hrounds := Leads.iterate
    (φ := fun k => (σ.deeper.withArray a receivers.toArray).withFrame f
      (polyFrame o n.toInt a number k))
    (J := fun k => .execute ⟨c, f, 60,
      [Number.reduce (k + 1), Number.reduce n.toInt, Number.reduce 1], k⟩)
    fun k (hk : k < n.toInt.toNat) => poly_round h.hosts hc (withArray_arrays_self ..) hk
  refine hrounds.trans ?_
  refine .jumpGreater (hc.reads rfl) (by omega) ?_
  refine .drop (hc.reads rfl) ?_
  refine .pushOwn (hc.reads rfl) rfl ?_
  exact .answer (hc.reads rfl) (le_withArray ha) hf

end Inlined

/-! ### Its body in a block -/

section Closed

variable {n : Int64} {r : BlockRef} {number : Nat}

/-- The frame of `poly:` after so many evaluations of the block. -/
def polyFrameClosed (o : ObjectRef) (limit : Int) (a : ArrayRef) (number k : Nat) : Frame :=
  ⟨number, #[.object o, Number.reduce limit],
    #[.array a, Number.reduce (total printedLength k)], [], .onStack⟩

/-- An evaluation of the block adds the length. -/
theorem polyBody_leads {k : Nat} (h : τ.classes.Hosts false) (hc : c.Follows polyBody)
    (hr : τ.closures r = some ⟨c, some f⟩) (ha : τ.arrays a = some receivers.toArray)
    (hk : k < n.toInt.toNat) (hdepth : τ.depth < τ.limit) :
    Leads 40 (τ.withFrame f (polyFrameClosed o n.toInt a number k))
      (.evaluate r [Number.reduce (1 + k)])
      (τ.withFrame f (polyFrameClosed o n.toInt a number (k + 1)))
      (.answer (Number.reduce (total printedLength (k + 1)))) := by
  obtain ⟨x, hx⟩ := Number.exists_toInt_eq (i := (k + 1 : Nat)) (s := n) (by omega) (by omega)
  rw [Int.add_comm 1, ← Nat.cast_succ]
  refine .evaluate hc hr (around_some (withFrame_frames_self ..)) rfl hdepth fun g _ hg _ => ?_
  refine .pushOuter (hc.reads rfl) hg rfl (withFrame_frames_self ..) rfl ?_
  refine .pushOuter (hc.reads rfl) hg rfl (withFrame_frames_self ..) rfl ?_
  refine .pushOwn (hc.reads rfl) rfl ?_
  refine length_leads h ha hx (hc.reads rfl) (hc.value 0 rfl) (hc.sends rfl)
    (hc.reads rfl) (hc.sends rfl) (hc.sends rfl) (hc.sends rfl) (hc.sends rfl) ?_
  refine .ask (hc.sends rfl) [_, _] rfl rfl (.arith .add (h.arith .add rfl) rfl) ?_
  rw [Arith.exact, ← total_succ]
  refine .dup (hc.reads rfl) ?_
  refine .popOuter (l := [.array a, Number.reduce (total printedLength (k + 1))]) (hc.reads rfl) hg
    rfl (withFrame_frames_self ..) (Nat.lt_succ_self 1) rfl ?_
  refine .answer (hc.reads rfl) ?_ (withFrame_frames_eq_none hg)
  rw [show deeper (τ.withFrame f (polyFrameClosed o n.toInt a number k)) =
    τ.deeper.withFrame f (polyFrameClosed o n.toInt a number k) from rfl, withFrame_withFrame]
  exact .refl _

theorem poly_closed (h : σ.Ready false o) (hdepth : σ.depth < σ.limit)
    (hnested : 1 ≤ n.toInt → σ.depth + 1 < σ.limit) :
    Leads (42 * n.toInt.toNat + 60) σ (.send "poly:" [.object o, Number.reduce n.toInt]) σ
      (.answer (Number.reduce (total printedLength n.toInt.toNat))) := by
  obtain ⟨c, hl, hc⟩ := h.method (m := polyMethod) (k := polyClosed) (by simp [sketches])
  obtain ⟨c₁, hcode₁, hc₁⟩ := hc.block 9 rfl
  refine (?_ : Leads (3 + ((40 + 2) * n.toInt.toNat + 1 + 2) + 5 + 46 + 2) _ _ _ _).mono (by omega)
  refine .sendMethod hc hl rfl hdepth fun f number hf _ => ?_
  refine filling_leads ⟨h.hosts, h.receiver, h.array⟩ (hc.part ⟨_, rfl⟩ ⟨_, rfl⟩) fun a ha => ?_
  refine .pushOne (hc.reads rfl) ?_
  refine .pushOwn (hc.reads rfl) rfl ?_
  refine .pushBlock (hc.reads rfl) hcode₁ fun r hr => ?_
  have hrounds : Leads _ _ (.count 1 n.toInt r (Number.reduce 1)) _ (.answer (Number.reduce 1)) :=
    .count (m := n.toInt.toNat) (n := 40) (φ := fun k =>
      ((σ.deeper.withArray a receivers.toArray).withClosure r ⟨c₁, some f⟩).withFrame f
        (polyFrameClosed o n.toInt a number k)) (by omega) fun k hk => ⟨by omega, _,
          polyBody_leads h.hosts hc₁ (withClosure_closures_self ..) (withArray_arrays_self ..) hk
            (hnested (by omega))⟩
  refine .send (hc.sends rfl) [_, _, _] rfl rfl
    (.toDo (x := 1) (y := n) (h.hosts.finds (by decide)) rfl rfl hrounds) ?_
  refine .drop (hc.reads rfl) ?_
  refine .pushOwn (hc.reads rfl) rfl ?_
  exact .answer (hc.reads rfl) ((le_withArray ha).trans (le_withClosure hr)) hf

end Closed

/-- `poly:` answers the sum of the lengths. -/
theorem poly_leads {n : Int64} (h : σ.Ready inlining o)
    (hdepth : σ.depth + nesting inlining n.toInt .poly ≤ σ.limit) :
    Leads (42 * n.toInt.toNat + 60) σ (.send "poly:" [.object o, Number.reduce n.toInt]) σ
      (.answer (answer n.toInt .poly)) := by
  rw [nesting] at hdepth
  cases inlining with
  | true => exact (poly_inlined h hdepth).mono (by omega)
  | false =>
    simp only [Bool.false_eq_true, false_or] at hdepth
    split at hdepth <;> exact poly_closed h (by omega) fun hn => by omega

end Parley.Workload
