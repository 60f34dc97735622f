import Mathlib.Logic.Relation
import Mathlib.Order.Bounds.Basic
import Parley.Proofs.Passing

/-!
# The control flow of a tape

What a tape may be asked for, said without the check that is made of it. A tape divides into
complete instructions (`Tape.Divides`). The operands of each refer to what there is
(`Opcode.Refers`). Execution leaves an instruction on one of three ways (`Way`), and each way
trades some entries of the operand stack for others (`Opcode.Trades`); so the tape is a graph
whose edges say how the depth changes (`Tape.Edge`), and an assignment of depths is right if it
is zero at the beginning and follows the edges (`Tape.Assigns`).

* `divides_iff`: a tape divides in at most one way, at its instruction starts;
* `checkOperands_iff`: the check of the operands accepts those that refer to what there is;
* `visit_of_enough`: a visit accepts every depth that no way out of the instruction exceeds, if
  the tape goes on where execution does;
* `Visit.Describes.mem_iff`: a visit passes its depth on along the edges;
* `Visit.Describes.isGreatest`: its peak is the largest depth before or after the instruction.
-/

namespace Parley

/-! ### Instructions -/

/-- A way to leave an instruction: on to the next one, aside to the target of its jump, or out of
    the tape. -/
inductive Way where
  | onward
  | aside
  | out
deriving DecidableEq

variable {β : Type} {literals : Array (Literal β)}

/-- How many entries an instruction takes off the operand stack, and how many it puts there, when
    it is left on a way. -/
inductive Opcode.Trades (literals : Array (Literal β)) (first : UInt8) :
    Opcode → Way → Nat → Nat → Prop
  | halt : Trades literals first .halt .out 0 0
  | returnSelf : Trades literals first .returnSelf .out 0 0
  | returnLocal : Trades literals first .returnLocal .out 1 0
  | returnNonLocal : Trades literals first .returnNonLocal .out 1 0
  | dup : Trades literals first .dup .onward 1 2
  | dupSecond : Trades literals first .dupSecond .onward 2 3
  | push (p : Place) : Trades literals first (.push p) .onward 0 1
  | pushBlock (withContext : Bool) : Trades literals first (.pushBlock withContext) .onward 0 1
  | pushConstant : Trades literals first .pushConstant .onward 0 1
  | pushGlobal : Trades literals first .pushGlobal .onward 0 1
  | pushSelf : Trades literals first .pushSelf .onward 0 1
  | pushNil : Trades literals first .pushNil .onward 0 1
  | pushZero : Trades literals first .pushZero .onward 0 1
  | pushOne : Trades literals first .pushOne .onward 0 1
  | drop : Trades literals first .drop .onward 1 0
  | pop (p : Place) : Trades literals first (.pop p) .onward 1 0
  | step (up : Bool) : Trades literals first (.step up) .onward 1 1
  /-- A send takes the receiver and the arguments and puts the answer there. -/
  | send (toSuper : Bool) {s : Selector} (h : literals[first.toNat]? = some (.selector s)) :
    Trades literals first (.send toSuper) .onward (s.arity + 1) 1
  | always (wide : Bool) : Trades literals first (.jump .always wide) .aside 0 0
  | back (wide : Bool) : Trades literals first (.jump .back wide) .aside 0 0
  | stays (on leavesNil wide : Bool) :
    Trades literals first (.jump (.test on leavesNil) wide) .onward 1 0
  | leavesNil (on wide : Bool) : Trades literals first (.jump (.test on true) wide) .aside 1 1
  | leaves (on wide : Bool) : Trades literals first (.jump (.test on false) wide) .aside 1 0
  /-- What was compared is kept, unless the jump is taken. -/
  | notGreater (wide : Bool) : Trades literals first (.jump .greater wide) .onward 2 2
  | greater (wide : Bool) : Trades literals first (.jump .greater wide) .aside 2 0

/-- The distance that the operand bytes of a jump hold, the low byte first. -/
def Jump.span (wide : Bool) (first second : UInt8) : Nat :=
  if wide then first.toNat + 256 * second.toNat else first.toNat

/-- Where a jump over a distance leads from an offset. -/
inductive Jump.Lands (ip distance : Nat) : Jump → Nat → Prop
  | back {target : Nat} (h : target + distance = ip) : Lands ip distance .back target
  | ahead {j : Jump} (hj : j ≠ .back) (h : 0 < distance) : Lands ip distance j (ip + distance)

/-- Whether the operands of an instruction refer to what there is, in a frame with so many
    arguments and locals. Variables of the frames around it are not looked at. -/
def Opcode.Refers (literals : Array (Literal β)) (arguments locals : Nat) (starts : List Nat)
    (ip : Nat) (op : Opcode) (first second : UInt8) : Prop :=
  match op with
  | .send _ => ∃ s, literals[first.toNat]? = some (.selector s)
  | .pushGlobal => ∃ name, literals[first.toNat]? = some (.global name)
  | .pushBlock _ => ∃ b, literals[first.toNat]? = some (.block b)
  | .pushConstant => (∃ v, literals[first.toNat]? = some (.value v)) ∨
      ∃ s, literals[first.toNat]? = some (.selector s)
  | .push .temporary | .pop .temporary => second = 0 → first.toNat < locals
  | .push .argument | .pop .argument => second = 0 → first.toNat < arguments
  | .jump j wide => ∃ target ∈ starts, j.Lands ip (Jump.span wide first second) target
  | _ => True

/-- A jump leads to one offset only. -/
theorem Jump.Lands.unique {ip distance target target' : Nat} {j : Jump}
    (h : j.Lands ip distance target) (h' : j.Lands ip distance target') : target' = target := by
  cases h with
  | back h =>
    cases h' with
    | back h' => omega
    | ahead hj => exact absurd rfl hj
  | ahead hj =>
    cases h' with
    | back => exact absurd rfl hj
    | ahead => rfl

namespace Tape

variable {t : Tape} {arguments locals ip : Nat} {op : Opcode} {first second : UInt8}

/-! ### Graphs -/

/-- A tape that from an offset on is a sequence of complete instructions, none of them quickened,
    with the offsets at which they start. -/
inductive Divides (t : Tape) : Nat → List Nat → Prop
  | done : Divides t t.size []
  | next {ip : Nat} {op : Opcode} {rest : List Nat} (hw : t.Whole ip op)
    (hr : Divides t (ip + op.size) rest) : Divides t ip (ip :: rest)

/-- The ways out of the instruction at an offset, each with what it trades. -/
def Leaves (t : Tape) (literals : Array (Literal β)) (ip : Nat) (w : Way) (pops pushes : Nat) :
    Prop :=
  ∃ op first second, t.Reads ip op first second ∧ op.Trades literals first w pops pushes

/-- The edges between offsets, each with what it trades. -/
inductive Edge (t : Tape) (literals : Array (Literal β)) (ip : Nat) : Nat → Nat → Nat → Prop
  | onward {op : Opcode} {first second : UInt8} {pops pushes : Nat}
    (hr : t.Reads ip op first second) (ht : op.Trades literals first .onward pops pushes) :
    Edge t literals ip (ip + op.size) pops pushes
  | aside {j : Jump} {wide : Bool} {first second : UInt8} {target pops pushes : Nat}
    (hr : t.Reads ip (.jump j wide) first second)
    (hl : j.Lands ip (Jump.span wide first second) target)
    (ht : (Opcode.jump j wide).Trades literals first .aside pops pushes) :
    Edge t literals ip target pops pushes

/-- The offsets that execution may come to from the beginning of the tape. -/
def Reachable (t : Tape) (literals : Array (Literal β)) : Nat → Prop :=
  Relation.ReflTransGen (fun ip ip' => ∃ pops pushes, t.Edge literals ip ip' pops pushes) 0

/-- A depth of the operand stack for every offset that execution may come to: execution stays on
    the tape, no way out of an instruction takes more than there is, and every edge changes the
    depth by what it trades. -/
structure Assigns (t : Tape) (literals : Array (Literal β)) (depth : Nat → Nat) : Prop where
  start : depth 0 = 0
  inside : ∀ ip, t.Reachable literals ip → ip < t.size
  fed : ∀ ip, t.Reachable literals ip →
    ∀ w pops pushes, t.Leaves literals ip w pops pushes → pops ≤ depth ip
  agrees : ∀ ip, t.Reachable literals ip →
    ∀ ip' pops pushes, t.Edge literals ip ip' pops pushes → depth ip' + pops = depth ip + pushes

/-- The depths before and after an instruction that is come to with `d` entries. -/
def heightsAt (t : Tape) (literals : Array (Literal β)) (ip d : Nat) : Set Nat :=
  {n | n = d ∨ ∃ w pops pushes, t.Leaves literals ip w pops pushes ∧ n + pops = d + pushes}

/-- The depths before and after all instructions that execution may come to. -/
def heights (t : Tape) (literals : Array (Literal β)) (depth : Nat → Nat) : Set Nat :=
  {n | ∃ ip, t.Reachable literals ip ∧ n ∈ t.heightsAt literals ip (depth ip)}

theorem Edge.leaves {ip' pops pushes : Nat} (h : t.Edge literals ip ip' pops pushes) :
    ∃ w, t.Leaves literals ip w pops pushes := by
  cases h with
  | onward hr ht => exact ⟨.onward, _, _, _, hr, ht⟩
  | aside hr _ ht => exact ⟨.aside, _, _, _, hr, ht⟩

/-! ### Instruction boundaries -/

theorem Divides.starts {rest : List Nat} (h : t.Divides ip rest) :
    rest = t.startsFrom ip ∧ ∀ i ∈ rest, ∃ op, t.Whole i op := by
  induction h with
  | done =>
    rw [startsFrom, dif_neg (Nat.lt_irrefl _)]
    simp
  | @next ip op rest hw _ ih =>
    have := op.size_pos
    have hfits := hw.fits
    rw [startsFrom_of_opcode (by omega) hw.opcode, ← ih.1]
    refine ⟨rfl, fun i hi => ?_⟩
    rcases List.mem_cons.1 hi with rfl | hi
    · exact ⟨op, hw⟩
    · exact ih.2 i hi

theorem divides_startsFrom (hle : ip ≤ t.size) (h : ∀ i ∈ t.startsFrom ip, ∃ op, t.Whole i op) :
    t.Divides ip (t.startsFrom ip) := by
  induction ip using startsFrom.induct t with
  | case1 ip hlt op hop _ ih =>
    rw [startsFrom_of_opcode hlt hop] at h ⊢
    obtain ⟨op', hw⟩ := h ip (List.mem_cons_self ..)
    obtain rfl : op' = op := Option.some.inj (hw.opcode.symm.trans hop)
    exact .next hw (ih hw.fits fun i hi => h i (List.mem_cons_of_mem _ hi))
  | case2 ip hlt hop =>
    obtain ⟨op, hw⟩ := h ip (mem_startsFrom_self hlt)
    rw [hw.opcode] at hop
    cases hop
  | case3 ip hge =>
    obtain rfl : ip = t.size := by omega
    rw [startsFrom, dif_neg hge]
    exact .done

/-- A tape that divides does so at its instruction starts. -/
theorem divides_iff {l : List Nat} :
    t.Divides 0 l ↔ l = t.starts ∧ ∀ i ∈ t.starts, ∃ op, t.Whole i op := by
  constructor
  · intro h
    obtain ⟨rfl, hw⟩ := h.starts
    exact ⟨rfl, hw⟩
  · rintro ⟨rfl, hw⟩
    exact divides_startsFrom (Nat.zero_le _) hw

/-! ### Operands -/

theorem Reads.distance_eq {j : Jump} {wide : Bool} (hr : t.Reads ip (.jump j wide) first second) :
    t.distance ip wide = Jump.span wide first second := by
  rw [distance, Jump.span, hr.first (by simp [Opcode.size]), hr.second (by simp [Opcode.size])]

theorem jumpTarget?_eq_some_iff {j : Jump} {wide : Bool} {target : Nat} :
    t.jumpTarget? ip j wide = some target ↔ j.Lands ip (t.distance ip wide) target := by
  simp only [jumpTarget?]
  constructor
  · intro h
    split at h
    · rename_i hj
      subst hj
      split at h
      · cases h
        exact .back (by omega)
      · cases h
    · rename_i hj
      split at h
      · rename_i hpos
        cases h
        exact .ahead hj hpos
      · cases h
  · intro h
    cases h with
    | back h =>
      rw [if_pos rfl, if_pos (by omega)]
      congr 1
      omega
    | ahead hj hpos => rw [if_neg hj, if_pos hpos]

theorem checkSlot_iff {what : String} {count : Nat} (hsize : op.size = 3)
    (hr : t.Reads ip op first second) :
    t.checkSlot ip what count = .ok () ↔ (second = 0 → first.toNat < count) := by
  rw [checkSlot, hr.first (by omega), hr.second (by omega)]
  split
  · rename_i h
    simp only [reduceCtorEq, false_iff, Classical.not_imp, Nat.not_lt]
    exact h
  · rename_i h
    simpa using h

/-- The check of the operands accepts those that refer to what there is. -/
theorem checkOperands_iff {marks : Array Bool} (hm : t.Marks marks)
    (hr : t.Reads ip op first second) :
    t.checkOperands literals arguments locals marks ip op = .ok () ↔
      op.Refers literals arguments locals t.starts ip first second := by
  cases op with
  | send | pushGlobal | pushBlock | pushConstant =>
    simp only [checkOperands, Opcode.Refers, hr.first (by simp [Opcode.size])]
    cases literals[first.toNat]? with
    | none => simp
    | some l => cases l <;> simp [suits]
  | push p =>
    cases p with
    | field => simp [checkOperands, Opcode.Refers]
    | _ => exact checkSlot_iff rfl hr
  | pop p =>
    cases p with
    | field => simp [checkOperands, Opcode.Refers]
    | _ => exact checkSlot_iff rfl hr
  | jump j wide =>
    simp only [checkOperands, Opcode.Refers, ← hr.distance_eq]
    cases htarget : t.jumpTarget? ip j wide with
    | none =>
      simp only [Option.bind_none, Option.getD_none, Bool.false_eq_true, if_false, reduceCtorEq,
        false_iff, not_exists, not_and]
      intro target _ hl
      rw [jumpTarget?_eq_some_iff.2 hl] at htarget
      cases htarget
    | some target =>
      have hl := jumpTarget?_eq_some_iff.1 htarget
      have hmark := hm target
      rw [Array.getD_eq_getD_getElem?] at hmark
      simp only [Option.bind_some, hmark, decide_eq_true_eq]
      split
      · rename_i hmem
        exact ⟨fun _ => ⟨target, hmem, hl⟩, fun _ => rfl⟩
      · rename_i hmem
        refine ⟨fun hok => absurd hok (by simp), ?_⟩
        rintro ⟨target', hmem', hl'⟩
        exact absurd (hl.unique hl' ▸ hmem') hmem
  | _ => simp [checkOperands, Opcode.Refers]

/-! ### Visits -/

/-- All ways out of an instruction take equally much off the stack, as the effect says; it also
    says what is put there, except when a jump is taken. -/
theorem effect_of_trades (hr : t.Reads ip op first second) {w : Way} {pops pushes : Nat}
    (ht : op.Trades literals first w pops pushes) :
    ∃ puts, t.effect literals ip op = .ok (pops, puts) ∧ (w ≠ .aside → puts = pushes) := by
  cases ht with
  | send _ hs =>
    refine ⟨1, ?_, fun _ => rfl⟩
    simp only [effect, hr.first (by simp [Opcode.size]), hs]
  | _ => exact ⟨_, rfl, by simp⟩

/-- The effect of an instruction is what one of its ways trades: the one onward, if there is. -/
theorem trades_of_effect (hr : t.Reads ip op first second) {pops puts : Nat}
    (he : t.effect literals ip op = .ok (pops, puts)) :
    ∃ w, op.Trades literals first w pops puts ∧ (fallsThrough op → w = .onward) := by
  cases op with
  | send =>
    simp only [effect, hr.first (by simp [Opcode.size])] at he
    split at he
    · rename_i hs
      cases he
      exact ⟨_, .send _ hs, fun _ => rfl⟩
    · cases he
  | jump j wide =>
    cases j with
    | always => cases he; exact ⟨_, .always _, fun hf => by cases hf⟩
    | back => cases he; exact ⟨_, .back _, fun hf => by cases hf⟩
    | test => cases he; exact ⟨_, .stays .., fun _ => rfl⟩
    | greater => cases he; exact ⟨_, .notGreater _, fun _ => rfl⟩
  | quickened => cases he
  | halt => cases he; exact ⟨_, .halt, fun hf => by cases hf⟩
  | returnSelf => cases he; exact ⟨_, .returnSelf, fun hf => by cases hf⟩
  | returnLocal => cases he; exact ⟨_, .returnLocal, fun hf => by cases hf⟩
  | returnNonLocal => cases he; exact ⟨_, .returnNonLocal, fun hf => by cases hf⟩
  | _ => cases he; exact ⟨.onward, by constructor, fun _ => rfl⟩

/-- A jump that is taken leaves no more than there was. -/
theorem le_of_trades_aside {pops pushes : Nat}
    (ht : op.Trades literals first .aside pops pushes) : pushes ≤ pops := by
  cases ht <;> omega

theorem fallsThrough_of_trades {pops pushes : Nat}
    (ht : op.Trades literals first .onward pops pushes) : fallsThrough op = true := by
  cases ht <;> rfl

/-- Where a jump leads with the depth that it leaves. -/
theorem taken_eq {j : Jump} {wide : Bool} {target d pops puts pushes : Nat}
    (hr : t.Reads ip (.jump j wide) first second)
    (hl : j.Lands ip (Jump.span wide first second) target)
    (he : t.effect literals ip (.jump j wide) = .ok (pops, puts))
    (ht : (Opcode.jump j wide).Trades literals first .aside pops pushes) :
    t.taken ip j wide d (d - pops + puts) = (target, d - pops + pushes) := by
  rw [← hr.distance_eq] at hl
  cases hl with
  | back hl =>
    cases ht
    cases he
    refine Prod.ext ?_ rfl
    exact Nat.sub_eq_of_eq_add hl.symm
  | ahead hj =>
    cases ht with
    | back => exact absurd rfl hj
    | _ => cases he; rfl

/-- A jump may be taken, too. -/
theorem trades_aside {j : Jump} {wide : Bool} {pops puts : Nat}
    (he : t.effect literals ip (.jump j wide) = .ok (pops, puts)) :
    ∃ pushes, (Opcode.jump j wide).Trades literals first .aside pops pushes := by
  cases j with
  | always => cases he; exact ⟨_, .always _⟩
  | back => cases he; exact ⟨_, .back _⟩
  | test on leavesNil =>
    cases he
    cases leavesNil
    · exact ⟨_, .leaves ..⟩
    · exact ⟨_, .leavesNil ..⟩
  | greater => cases he; exact ⟨_, .greater _⟩

/-- An instruction whose operands refer to what there is has an effect. -/
theorem exists_effect (hr : t.Reads ip op first second) (hplain : op.isQuickened = false)
    {starts : List Nat} (hf : op.Refers literals arguments locals starts ip first second) :
    ∃ pops puts, t.effect literals ip op = .ok (pops, puts) := by
  cases op with
  | send =>
    obtain ⟨s, hs⟩ := hf
    exact ⟨s.arity + 1, 1, by simp only [effect, hr.first (by simp [Opcode.size]), hs]⟩
  | jump j => cases j <;> exact ⟨_, _, rfl⟩
  | quickened => cases hplain
  | _ => exact ⟨_, _, rfl⟩

theorem lt_of_visit {d : Nat} {v : Visit} (h : t.visit literals ip d = .ok v) : ip < t.size := by
  by_contra hge
  rw [visit, opcode?, Array.getElem?_eq_none (Nat.le_of_not_lt hge)] at h
  cases h

/-- A visit succeeds if there is enough to take and the tape goes on where execution does. -/
theorem visit_of_enough {d pops puts : Nat} (ho : t.opcode? ip = some op)
    (he : t.effect literals ip op = .ok (pops, puts)) (hd : pops ≤ d)
    (hin : fallsThrough op → ip + op.size < t.size) : ∃ v, t.visit literals ip d = .ok v := by
  simp only [visit, ho, he, if_neg (Nat.not_lt.2 hd)]
  split
  · rename_i hf
    rw [if_neg (Nat.not_le.2 (hin hf))]
    exact ⟨_, rfl⟩
  · exact ⟨_, rfl⟩

namespace Visit.Describes

variable {v : Visit} {d pops puts : Nat} (hv : v.Describes t literals ip d op pops puts)
  (hr : t.Reads ip op first second)

include hv hr

/-- All ways out take what the visit takes. -/
theorem pops_eq {w : Way} {p q : Nat} (h : t.Leaves literals ip w p q) :
    p = pops ∧ (w ≠ .aside → q = puts) := by
  obtain ⟨op', first', second', hr', ht⟩ := h
  obtain ⟨rfl, rfl, rfl⟩ := hr.unique hr'
  obtain ⟨puts', he, hputs⟩ := effect_of_trades hr ht
  obtain ⟨rfl, rfl⟩ := hv.effect_eq he
  exact ⟨rfl, fun hw => (hputs hw).symm⟩

/-- A visit passes its depth on along the edges. -/
theorem mem_iff (hl : ∀ j wide, op = .jump j wide →
      ∃ target, j.Lands ip (Jump.span wide first second) target) (x : Nat × Nat) :
    x ∈ v.next.toList ++ v.branch.toList ↔
      ∃ p q, t.Edge literals ip x.1 p q ∧ x.2 + p = d + q := by
  have hd := hv.enough
  rw [List.mem_append, hv.next, hv.branch]
  constructor
  · rintro (hx | hx)
    · split at hx
      · rename_i hf
        obtain ⟨w, ht, hw⟩ := trades_of_effect hr hv.effect
        obtain rfl := hw hf
        obtain rfl : x = _ := by simpa using hx
        exact ⟨pops, puts, .onward hr ht, by simp only; omega⟩
      · cases hx
    · cases op with
      | jump j wide =>
        obtain ⟨target, hl⟩ := hl j wide rfl
        obtain ⟨pushes, ht⟩ := trades_aside hv.effect
        rw [branch?, taken_eq hr hl hv.effect ht] at hx
        obtain rfl : x = _ := by simpa using hx
        exact ⟨pops, pushes, .aside hr hl ht, by simp only; omega⟩
      | _ => cases hx
  · obtain ⟨i, depth⟩ := x
    rintro ⟨p, q, he, hdepth⟩
    simp only at he hdepth
    cases he with
    | onward hr' ht =>
      obtain ⟨rfl, hq⟩ := hv.pops_eq hr ⟨_, _, _, hr', ht⟩
      obtain ⟨rfl, -, -⟩ := hr.unique hr'
      rw [if_pos (fallsThrough_of_trades ht)]
      left
      simp only [Option.toList_some, List.mem_singleton, Prod.mk.injEq, true_and]
      have := hq nofun
      omega
    | aside hr' hl' ht =>
      obtain ⟨rfl, -⟩ := hv.pops_eq hr ⟨_, _, _, hr', ht⟩
      obtain ⟨rfl, rfl, rfl⟩ := hr.unique hr'
      rw [branch?, taken_eq hr hl' hv.effect ht]
      right
      simp only [Option.toList_some, List.mem_singleton, Prod.mk.injEq, true_and]
      omega

/-- The peak of a visit is the largest depth before or after the instruction. -/
theorem isGreatest : IsGreatest (t.heightsAt literals ip d) v.peak := by
  have hd := hv.enough
  rw [hv.peak]
  constructor
  · obtain ⟨w, ht, -⟩ := trades_of_effect hr hv.effect
    rcases Nat.le_total (d - pops + puts) d with h | h
    · exact .inl (Nat.max_eq_right h)
    · rw [Nat.max_eq_left h]
      exact .inr ⟨w, pops, puts, ⟨op, first, second, hr, ht⟩, by omega⟩
  · rintro n (rfl | ⟨w, p, q, hw, hn⟩)
    · exact Nat.le_max_right _ _
    · obtain ⟨rfl, hq⟩ := hv.pops_eq hr hw
      by_cases ha : w = .aside
      · obtain ⟨op', first', second', -, ht⟩ := hw
        have := le_of_trades_aside (ha ▸ ht)
        omega
      · have := hq ha
        omega

end Visit.Describes

end Tape

end Parley
