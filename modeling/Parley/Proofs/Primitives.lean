import Parley.Proofs.Calling

/-!
# Primitives in a scene

Where messages that find primitives lead to in a scene (`ClassTable.Finds`): arithmetic and
comparisons of integers are exact, whether small or big; Booleans choose between blocks, and blocks
are evaluated; arrays are made, written and read.
-/

namespace Parley

/-- A message to instances of a class finds a primitive. -/
def ClassTable.Finds (t : ClassTable) (c : ClassRef) (s : Selector) (b : Builtin) : Prop :=
  ∃ p, t.lookup c s = some (.primitive p) ∧ p.selector = s ∧ p.builtin = b

namespace Scene

open Machine

variable {σ σ' σ₁ : Scene} {j j' : Job} {n : Nat} {s : Selector} {arguments : List Value}
  {v : Value} {c : ClassRef} {b : Builtin}

theorem Leads.sendPrimitive (hfinds : σ.classes.Finds c s b)
    (hc : σ.classOf? (argument arguments 0) = some c) (hlength : arguments.length = s.arity + 1)
    (hb : b ≠ .instVarAt) (h : ∀ w, σ.Holds w → ∃ w' σ₁ j₁,
      b.apply arguments w = (j₁, w') ∧ σ₁.Holds w' ∧ Leads n σ₁ j₁ σ' j') :
    Leads (n + 2) σ (.send s arguments) σ' j' := by
  obtain ⟨p, hp, rfl, rfl⟩ := hfinds
  have hlookup : σ.lookup? (argument arguments 0) p.selector = some (.primitive p) := by
    rw [lookup?, hc, Option.bind_some, hp]
  exact .look hlookup (.primitive hlength hb h)

/-- A primitive that changes nothing. -/
theorem Leads.sendPure (hfinds : σ.classes.Finds c s b)
    (hc : σ.classOf? (argument arguments 0) = some c) (hlength : arguments.length = s.arity + 1)
    (hb : b ≠ .instVarAt) (h : ∀ w, σ.Holds w → b.apply arguments w = (j, w))
    (hnext : Leads n σ j σ' j') : Leads (n + 2) σ (.send s arguments) σ' j' :=
  .sendPrimitive hfinds hc hlength hb fun w hw => ⟨w, σ, j, h w hw, hw, hnext⟩

/-! ### Integers -/

theorem Leads.arith (op : Arith) {x y : Int}
    (hfinds : σ.classes.Finds Core.integer op.selector (.arith op)) (hop : op.divides = false) :
    Leads 2 σ (.send op.selector [Number.reduce x, Number.reduce y]) σ
      (.answer (Number.reduce (op.exact x y))) :=
  .sendPrimitive hfinds (classOf?_reduce σ x) (by cases op <;> rfl) nofun fun w hw =>
    ⟨_, σ, _, by
      simp only [Builtin.apply, argument, List.getD_cons_zero, List.getD_cons_succ, Numbers.arith,
        Number.integer_reduce hop],
      hw.notePromotion op (Number.reduce x) (Number.reduce y), .refl _ _⟩

theorem Leads.rem {x y : Int64} {a b : Int}
    (hfinds : σ.classes.Finds Core.integer "\\\\" (.arith .rem)) (hx : x.toInt = a)
    (hy : y.toInt = b) (ha : 0 ≤ a) (hb : 0 < b) :
    Leads 2 σ (.send "\\\\" [Number.reduce a, Number.reduce b]) σ
      (.answer (Number.reduce (a % b))) := by
  subst hx hy
  rw [Number.reduce_toInt, Number.reduce_toInt]
  exact .sendPrimitive hfinds rfl rfl nofun fun w hw =>
    ⟨_, σ, _, by
      simp only [Builtin.apply, argument, List.getD_cons_zero, List.getD_cons_succ, Numbers.arith,
        Number.integer_rem_int ha hb],
      hw.notePromotion .rem (.int x) (.int y), .refl _ _⟩

theorem Leads.compare (o : Comparison) {x y : Int}
    (hfinds : σ.classes.Finds Core.integer o.selector (.compare o)) :
    Leads 2 σ (.send o.selector [Number.reduce x, Number.reduce y]) σ
      (.answer (.bool (o.holds (Ord.compare x y)))) :=
  .sendPure hfinds (classOf?_reduce σ x) (by cases o <;> rfl) nofun (fun w _ => by
    simp only [Builtin.apply, argument, List.getD_cons_zero, List.getD_cons_succ, Numbers.compare,
      Number.compare?_reduce]) (.refl _ _)

theorem Leads.toDo {x y : Int64} {first limit : Int} {r : BlockRef}
    (hfinds : σ.classes.Finds Core.integer "to:do:" .toDo) (hx : x.toInt = first)
    (hy : y.toInt = limit) (hnext : Leads n σ (.count first limit r (Number.reduce first)) σ' j') :
    Leads (n + 2) σ (.send "to:do:" [Number.reduce first, Number.reduce limit, .block r]) σ'
      j' := by
  subst hx hy
  rw [Number.reduce_toInt] at hnext ⊢
  rw [Number.reduce_toInt]
  exact .sendPure hfinds rfl rfl nofun (fun _ _ => rfl) hnext

/-! ### Booleans and blocks -/

theorem Leads.ifTrueIfFalse {t : Bool} {r r' : BlockRef}
    (hfinds : σ.classes.Finds (if t then Core.true else Core.false) "ifTrue:ifFalse:"
      .ifTrueIfFalse)
    (hnext : Leads n σ (.evaluate (if t then r else r') []) σ' j') :
    Leads (n + 2) σ (.send "ifTrue:ifFalse:" [.bool t, .block r, .block r']) σ' j' := by
  cases t with
  | true => exact .sendPure hfinds rfl rfl nofun (fun _ _ => rfl) hnext
  | false => exact .sendPure hfinds rfl rfl nofun (fun _ _ => rfl) hnext

/-- A block is for one truth value, and not evaluated with the other. -/
theorem Leads.ifTrue {r : BlockRef} (hfinds : σ.classes.Finds Core.true "ifTrue:" .ifTrue)
    (hnext : Leads n σ (.evaluate r []) σ' j') :
    Leads (n + 2) σ (.send "ifTrue:" [.bool true, .block r]) σ' j' :=
  .sendPure hfinds rfl rfl nofun (fun _ _ => rfl) hnext

theorem Leads.ifTrueNot {r : BlockRef} (hfinds : σ.classes.Finds Core.false "ifTrue:" .ifTrue) :
    Leads 2 σ (.send "ifTrue:" [.bool false, .block r]) σ (.answer .nil) :=
  .sendPure hfinds rfl rfl nofun (fun _ _ => rfl) (.refl _ _)

theorem Leads.ifFalse {r : BlockRef} (hfinds : σ.classes.Finds Core.false "ifFalse:" .ifFalse)
    (hnext : Leads n σ (.evaluate r []) σ' j') :
    Leads (n + 2) σ (.send "ifFalse:" [.bool false, .block r]) σ' j' :=
  .sendPure hfinds rfl rfl nofun (fun _ _ => rfl) hnext

theorem Leads.ifFalseNot {r : BlockRef} (hfinds : σ.classes.Finds Core.true "ifFalse:" .ifFalse) :
    Leads 2 σ (.send "ifFalse:" [.bool true, .block r]) σ (.answer .nil) :=
  .sendPure hfinds rfl rfl nofun (fun _ _ => rfl) (.refl _ _)

/-- A block is evaluated with as many arguments as the message has. -/
theorem Leads.value {r : BlockRef} (hfinds : σ.classes.Finds Core.block s .blockValue)
    (hlength : arguments.length = s.arity) (hnext : Leads n σ (.evaluate r arguments) σ' j') :
    Leads (n + 2) σ (.send s (.block r :: arguments)) σ' j' :=
  .sendPure hfinds rfl (congrArg (· + 1) hlength) nofun (fun _ _ => rfl) hnext

theorem Leads.restart {r : BlockRef} (hfinds : σ.classes.Finds Core.block "restart" .restart) :
    Leads 2 σ (.send "restart" [.block r]) σ (.unwind .restart) :=
  .sendPure hfinds rfl rfl nofun (fun _ _ => rfl) (.refl _ _)

/-! ### Arrays and texts -/

section Making

variable {code : Code} {f : FrameRef} {ip k : Nat} {stack st : List Value}

/-- An activation sends a message that finds a primitive, and goes on with an answer that may depend
    on where things are put. -/
theorem Leads.sendMaking (hs : code.sends? ip = some (false, s)) (arguments : List Value)
    (hstack : stack = arguments.reverse ++ st) (hlength : arguments.length = s.arity + 1)
    (hfinds : σ.classes.Finds c s b) (hc : σ.classOf? (argument arguments 0) = some c)
    (hb : b ≠ .instVarAt) (h : ∀ w, σ.Holds w → ∃ w' σ₁ v,
      b.apply arguments w = (.answer v, w') ∧ σ₁.Holds w' ∧
        Leads n σ₁ (.execute ⟨code, f, ip + 2, v :: st, k⟩) σ' j') :
    Leads (n + 4) σ (.execute ⟨code, f, ip, stack, k⟩) σ' j' := by
  obtain ⟨p, hp, rfl, rfl⟩ := hfinds
  have hlookup : σ.lookup? (argument arguments 0) p.selector = some (.primitive p) := by
    rw [lookup?, hc, Option.bind_some, hp]
  refine .waiting hs arguments hstack hlength ((Leads.look hlookup (.refl _ _)).clears ?_)
  refine .instead (.sender ⟨code, f, ip + 2, st, k⟩) hb fun w _ hw => ?_
  obtain ⟨w', σ₁, v, happly, hw', hnext⟩ := h w hw
  refine ⟨w', σ₁, .answer v, ?_, hw', .last trivial fun w _ hw => ⟨w, σ₁, _, rfl, hw, hnext⟩⟩
  simp only [step, invoke, if_pos hlength, happly]
  rfl

/-- A new array: one of which nothing was known. -/
theorem Leads.sendNewArray {τ : Scene} {F : Frame} {i : Int64}
    (hs : code.sends? ip = some (false, "new:"))
    (hfinds : τ.classes.Finds Core.arrayClass "new:" .newArray)
    (hmeta : τ.classes.metaclass? Core.array = some Core.arrayClass) (hi : ¬ i < 0)
    (hnext : ∀ a, τ.arrays a = none →
      Leads n ((τ.withArray a (List.replicate i.toInt.toNat .nil).toArray).withFrame f F)
        (.execute ⟨code, f, ip + 2, .array a :: st, k⟩) σ' j') :
    Leads (n + 4) (τ.withFrame f F)
      (.execute ⟨code, f, ip, .int i :: .classRef Core.array :: st, k⟩) σ' j' :=
  .sendMaking hs [.classRef Core.array, .int i] rfl rfl hfinds hmeta nofun fun w hw =>
    ⟨_, _, _, by
      simp only [Builtin.apply, Collections.newArray, smallInteger, argument, List.getD_cons_succ,
        List.getD_cons_zero, if_neg hi]
      rfl, hw.newArray (List.replicate i.toInt.toNat .nil), hnext _ hw.arrays_size⟩

/-- The text of a value is a new string. -/
theorem Leads.sendPrintString {text : String} (hs : code.sends? ip = some (false, "printString"))
    (hc : σ.classOf? v = some c) (hfinds : σ.classes.Finds c "printString" .printString)
    (htext : ∀ w, σ.Holds w → w.display? v = some text)
    (hnext : ∀ owner, Leads n σ
      (.execute ⟨code, f, ip + 2, .string owner text :: st, k⟩) σ' j') :
    Leads (n + 4) σ (.execute ⟨code, f, ip, v :: st, k⟩) σ' j' :=
  .sendMaking hs [v] rfl rfl hfinds hc nofun fun w hw =>
    ⟨(w.newString text).2, σ, _, by
      simp only [Builtin.apply, textAnswer, argument, List.getD_cons_zero, htext w hw]
      rfl, hw.congr rfl rfl rfl rfl rfl rfl rfl, hnext (.string w.supply.string)⟩

end Making

section Arrays

variable {τ : Scene} {f : FrameRef} {F : Frame} {a : ArrayRef} {l m : List Value} {i : Int64}

theorem place_eq {size : Nat} {rest : List Value} (hi : 1 ≤ i.toInt) (hsize : i.toInt ≤ size) :
    place (v :: .int i :: rest) 1 size s = .ok (i.toInt.toNat - 1) :=
  if_pos ⟨hi, hsize⟩

theorem Leads.atPut (hfinds : τ.classes.Finds Core.array "at:put:" .atPut)
    (ha : τ.arrays a = some l.toArray) (hi : 1 ≤ i.toInt) (hsize : i.toInt ≤ l.length)
    (hl : l.set (i.toInt.toNat - 1) v = m) :
    Leads 2 (τ.withFrame f F) (.send "at:put:" [.array a, .int i, v])
      ((τ.withArray a m.toArray).withFrame f F) (.answer v) := by
  subst hl
  refine .sendPrimitive hfinds rfl rfl nofun fun w hw => ?_
  have hset := hw.setElement (a := a) ha (i.toInt.toNat - 1) v
  rw [List.setIfInBounds_toArray] at hset
  refine ⟨_, _, _, ?_, hset, .refl _ _⟩
  simp only [Builtin.apply, Collections.setElement, argument, List.getD_cons_succ,
    List.getD_cons_zero, hw.array (a := a) ha]
  rw [place_eq hi (by simpa using hsize)]

theorem Leads.at {place : Int} (hfinds : σ.classes.Finds Core.array "at:" .at_)
    (ha : σ.arrays a = some l.toArray) (hi : i.toInt = place) (hplace : 1 ≤ place)
    (hv : l[place.toNat - 1]? = some v) :
    Leads 2 σ (.send "at:" [.array a, Number.reduce place]) σ (.answer v) := by
  subst hi
  have hsize : i.toInt ≤ l.length := by
    have := (List.getElem?_eq_some_iff.1 hv).1
    omega
  rw [Number.reduce_toInt]
  refine .sendPure hfinds rfl rfl nofun (fun w hw => ?_) (.refl _ _)
  simp only [Builtin.apply, Collections.element, argument, List.getD_cons_zero, hw.array ha]
  rw [place_eq hplace (by simpa using hsize)]
  simp only [Array.getD_eq_getD_getElem?, List.getElem?_toArray, hv, Option.getD_some]

theorem Leads.length {owner : Owner} {text : String}
    (hfinds : σ.classes.Finds Core.string "length" .length) :
    Leads 2 σ (.send "length" [.string owner text]) σ (.answer (countValue text.length)) :=
  .sendPure hfinds rfl rfl nofun (fun _ _ => rfl) (.refl _ _)

end Arrays

end Scene

end Parley
