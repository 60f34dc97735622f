import Mathlib.Data.Nat.PSub
import Parley.Proofs.Flow

/-!
# Checking without straying

The check of a tape reads bytes, marks and depths at offsets that it computes, and takes numbers
from one another. A guarded check looks before each such step and gives up if the offset is not
there or the difference would be negative. It never gives up: on every tape, whatever its bytes
are, it comes to what the check comes to (`Tape.guardedCheck_eq`).

The order of the three parts is what makes it so. The scan leaves operands where there are
instruction starts, the operands leave targets that are instruction starts, and so the search for
depths stays with instruction starts whatever it comes across.
-/

namespace Parley.Tape

variable {β : Type}

section Definitions

variable (t : Tape) (literals : Array (Literal β))

/-- The distance of the jump at an offset, if its operand bytes are there. -/
def guardedDistance (ip : Nat) (wide : Bool) : Option Nat := do
  let low ← t[ip + 1]?
  if wide then
    let high ← t[ip + 2]?
    some (low.toNat + 256 * high.toNat)
  else some low.toNat

/-- Marks the instruction starts from an offset on, each mark if there is room for it. -/
def guardedScanFrom (ip : Nat) (marks : Array Bool) : Option (Except CompileError (Array Bool)) :=
  if h : ip < t.size then
    match Opcode.ofByte? t[ip] with
    | none => some (.error (.rejected ip ("unknown opcode " ++ t[ip].toNat.repr)))
    | some op =>
      if op.isQuickened then some (.error (.rejected ip (op.name ++ " on the tape")))
      else if t.size < ip + op.size then
        some (.error (.rejected ip ("truncated " ++ op.name)))
      else if hm : ip < marks.size then
        guardedScanFrom (ip + op.size) (marks.set ip true hm)
      else none
  else some (.ok marks)
termination_by t.size - ip
decreasing_by
  have := op.size_pos
  omega

/-- Checks a slot of the own frame, if the operand bytes are there. -/
def guardedSlot (ip : Nat) (what : String) (count : Nat) : Option (Except CompileError Unit) := do
  let slot ← t[ip + 1]?
  let level ← t[ip + 2]?
  if level = 0 ∧ count ≤ slot.toNat then
    some (.error (.rejected ip (what ++ " " ++ slot.toNat.repr ++ " of " ++ count.repr)))
  else some (.ok ())

/-- Where the jump over a distance leads; backwards, the distance is compared first. -/
def guardedTarget (ip distance : Nat) (j : Jump) : Option Nat :=
  if j = .back then ip.psub distance
  else if 0 < distance then some (ip + distance) else none

/-- Checks the operands of the instruction at an offset, if they are there. -/
def guardedOperands (arguments locals : Nat) (marks : Array Bool) (ip : Nat) (op : Opcode) :
    Option (Except CompileError Unit) :=
  match op with
  | .send _ | .pushGlobal | .pushBlock _ | .pushConstant => do
    let index ← t[ip + 1]?
    match literals[index.toNat]? with
    | none => some (.error (.rejected ip ("literal " ++ index.toNat.repr ++ " out of range")))
    | some l => some (if suits op l then .ok () else .error (.rejected ip (misfit op)))
  | .push .temporary | .pop .temporary => t.guardedSlot ip "local" locals
  | .push .argument | .pop .argument => t.guardedSlot ip "argument" arguments
  | .jump j wide => do
    let distance ← t.guardedDistance ip wide
    match guardedTarget ip distance j with
    | none => some (.error (.rejected ip (op.name ++ " to a bad target")))
    | some target =>
      if target < t.size then do
        let mark ← marks[target]?
        some (if mark then .ok () else .error (.rejected ip (op.name ++ " to a bad target")))
      else some (.error (.rejected ip (op.name ++ " to a bad target")))
  | _ => some (.ok ())

/-- Checks the operands at all marked offsets, if there are marks and bytes for them. -/
def guardedAll (arguments locals : Nat) (marks : Array Bool) :
    List Nat → Option (Except CompileError Unit)
  | [] => some (.ok ())
  | ip :: rest =>
    match marks[ip]? with
    | none => none
    | some false => guardedAll arguments locals marks rest
    | some true =>
      match t[ip]? with
      | none => none
      | some byte =>
        match Opcode.ofByte? byte with
        | none => some (.error (.rejected ip "unknown opcode"))
        | some op =>
          match t.guardedOperands literals arguments locals marks ip op with
          | none => none
          | some (.error e) => some (.error e)
          | some (.ok ()) => guardedAll arguments locals marks rest

/-- The effect of the instruction at an offset, if its literal operand is there. -/
def guardedEffect (ip : Nat) (op : Opcode) : Option (Except CompileError (Nat × Nat)) :=
  match op with
  | .send _ => do
    let index ← t[ip + 1]?
    match literals[index.toNat]? with
    | some (.selector s) => some (.ok (s.arity + 1, 1))
    | _ => some (.error (.rejected ip "send without a selector literal"))
  | op => some (t.effect literals ip op)

/-- Where a jump leads with how many entries, if no difference is negative. -/
def guardedTaken (ip : Nat) (j : Jump) (wide : Bool) (before after : Nat) :
    Option (Nat × Nat) := do
  let distance ← t.guardedDistance ip wide
  match j with
  | .back => some (← ip.psub distance, after)
  | .always => some (ip + distance, after)
  | .test _ true => some (ip + distance, after + 1)
  | .test _ false => some (ip + distance, after)
  | .greater => some (ip + distance, ← before.psub 2)

/-- Where an instruction branches to, none if it is no jump. -/
def guardedBranch (ip before after : Nat) : Opcode → Option (Option (Nat × Nat))
  | .jump j wide => (t.guardedTaken ip j wide before after).map some
  | _ => some none

/-- Visits the instruction at an offset with a depth, if it is there. -/
def guardedVisit (ip depth : Nat) : Option (Except CompileError Visit) := do
  let byte ← t[ip]?
  match Opcode.ofByte? byte with
  | none => some (.error (.rejected ip "unknown opcode"))
  | some op =>
    match ← t.guardedEffect literals ip op with
    | .error e => some (.error e)
    | .ok (pops, pushes) =>
      if depth < pops then
        some (.error (.rejected ip (op.name ++ " underflows a stack of " ++ depth.repr)))
      else
        let left ← depth.psub pops
        let after := left + pushes
        let branch ← t.guardedBranch ip depth after op
        if fallsThrough op then
          if t.size ≤ ip + op.size then
            some (.error (.rejected ip "execution falls off the end"))
          else some (.ok ⟨max after depth, some (ip + op.size, after), branch⟩)
        else some (.ok ⟨max after depth, none, branch⟩)

/-- Searches on from the offsets that are waiting, if there are depths for them. -/
def guardedExplore (depths : Array (Option Nat)) (waiting : List (Nat × Nat)) (bound : Nat) :
    Option (Except CompileError (Array (Option Nat) × Nat)) :=
  match waiting with
  | [] => some (.ok (depths, bound))
  | (ip, depth) :: rest =>
    if h : ip < depths.size then
      match hd : depths[ip] with
      | some seen =>
        if seen = depth then guardedExplore depths rest bound
        else some (.error (.rejected ip ("stack depth " ++ depth.repr ++ " joins " ++ seen.repr)))
      | none =>
        match t.guardedVisit literals ip depth with
        | none => none
        | some (.error e) => some (.error e)
        | some (.ok v) =>
          guardedExplore (depths.set ip (some depth))
            (v.next.toList ++ (v.branch.toList ++ rest)) (max bound v.peak)
    else none
termination_by 2 * depths.count none + waiting.length
decreasing_by
  · simp
  · have count := Array.count_set (a := some depth) (b := (none : Option Nat)) h
    have one : 1 ≤ depths.count none :=
      Array.count_pos_iff.2 (hd ▸ Array.getElem_mem h)
    have next : v.next.toList.length ≤ 1 := by cases v.next <;> simp
    have branch : v.branch.toList.length ≤ 1 := by cases v.branch <;> simp
    simp [hd] at count
    simp [count]
    omega

/-- The guarded check of a tape. -/
def guardedCheck (arguments locals : Nat) :
    Option (Except CompileError (Array (Option Nat) × Nat)) :=
  if t.isEmpty then some (.error (.rejected 0 "empty program"))
  else
    match t.guardedScanFrom 0 (Array.replicate t.size false) with
    | none => none
    | some (.error e) => some (.error e)
    | some (.ok marks) =>
      match t.guardedAll literals arguments locals marks (List.range t.size) with
      | none => none
      | some (.error e) => some (.error e)
      | some (.ok ()) => t.guardedExplore literals (Array.replicate t.size none) [(0, 0)] 0

end Definitions

variable {t : Tape} {literals : Array (Literal β)} {arguments locals ip : Nat} {op : Opcode}

/-! ### Instruction boundaries and operands -/

theorem guardedScanFrom_eq {marks : Array Bool} (hs : marks.size = t.size) :
    t.guardedScanFrom ip marks = some (t.scanFrom ip marks) := by
  induction ip, marks using scanFrom.induct t with
  | case1 ip marks hlt hop =>
    rw [guardedScanFrom, scanFrom, dif_pos hlt, dif_pos hlt]
    simp [hop]
  | case2 ip marks hlt op hop hq =>
    rw [guardedScanFrom, scanFrom, dif_pos hlt, dif_pos hlt]
    simp [hop, hq]
  | case3 ip marks hlt op hop hq hsz =>
    rw [guardedScanFrom, scanFrom, dif_pos hlt, dif_pos hlt]
    simp [hop, hq, hsz]
  | case4 ip marks hlt op hop hq hsz _ ih =>
    have hm : ip < marks.size := hs ▸ hlt
    rw [guardedScanFrom, scanFrom, dif_pos hlt, dif_pos hlt]
    simp only [hop, hq, hsz, Bool.false_eq_true, if_false, dif_pos hm]
    rw [← ih (by simpa using hs), Array.setIfInBounds, dif_pos hm]
  | case5 ip marks hge =>
    rw [guardedScanFrom, scanFrom, dif_neg hge, dif_neg hge]

theorem size_of_scanFrom {marks marks' : Array Bool} (h : t.scanFrom ip marks = .ok marks') :
    marks'.size = marks.size := by
  induction ip, marks using scanFrom.induct t with
  | case1 ip marks hlt hop =>
    rw [scanFrom, dif_pos hlt] at h
    simp [hop] at h
  | case2 ip marks hlt op hop hq =>
    rw [scanFrom, dif_pos hlt] at h
    simp [hop, hq] at h
  | case3 ip marks hlt op hop hq hsz =>
    rw [scanFrom, dif_pos hlt] at h
    simp [hop, hq, hsz] at h
  | case4 ip marks hlt op hop hq hsz _ ih =>
    rw [scanFrom, dif_pos hlt] at h
    simp only [hop, hq, hsz, Bool.false_eq_true, if_false] at h
    rw [ih h, Array.size_setIfInBounds]
  | case5 ip marks hge =>
    rw [scanFrom, dif_neg hge] at h
    cases h
    rfl

/-- The bytes of a whole instruction are there. -/
theorem Whole.getElem? (hw : t.Whole ip op) {i : Nat} (h : i < op.size) :
    t[ip + i]? = some (t.byteAt (ip + i)) := by
  have hfits := hw.fits
  have hlt : ip + i < t.size := by omega
  rw [Array.getElem?_eq_getElem hlt, byteAt, Array.getD_eq_getD_getElem?,
    Array.getElem?_eq_getElem hlt, Option.getD_some]

theorem Whole.opcode_byte (hw : t.Whole ip op) :
    ∃ byte, t[ip]? = some byte ∧ Opcode.ofByte? byte = some op := by
  have ho := hw.opcode
  rw [opcode?] at ho
  cases h : t[ip]? with
  | none => simp [h] at ho
  | some byte => exact ⟨byte, rfl, by simpa [h] using ho⟩

theorem guardedDistance_eq {j : Jump} {wide : Bool} (hw : t.Whole ip (.jump j wide)) :
    t.guardedDistance ip wide = some (t.distance ip wide) := by
  rw [guardedDistance, hw.getElem? (by simp [Opcode.size]), hw.getElem? (by simp [Opcode.size]),
    distance]
  cases wide <;> rfl

theorem guardedTarget_eq {j : Jump} {wide : Bool} :
    guardedTarget ip (t.distance ip wide) j = t.jumpTarget? ip j wide := by
  simp only [guardedTarget, jumpTarget?]
  split
  · split
    · rename_i hle
      exact Nat.psub_eq_sub hle
    · rename_i hlt
      exact Nat.psub_eq_none.2 (Nat.lt_of_not_le hlt)
  · rfl

theorem guardedSlot_eq {what : String} {count : Nat} (hw : t.Whole ip op) (hsize : op.size = 3) :
    t.guardedSlot ip what count = some (t.checkSlot ip what count) := by
  simp only [guardedSlot, hw.getElem? (show 1 < op.size by omega),
    hw.getElem? (show 2 < op.size by omega), checkSlot, Option.bind_eq_bind, Option.bind_some]
  split <;> rfl

theorem guardedOperands_eq {marks : Array Bool} (hs : marks.size = t.size) (hw : t.Whole ip op) :
    t.guardedOperands literals arguments locals marks ip op =
      some (t.checkOperands literals arguments locals marks ip op) := by
  cases op with
  | send | pushGlobal | pushBlock | pushConstant =>
    simp only [guardedOperands, checkOperands, hw.getElem? (show 1 < _ by simp [Opcode.size]),
      Option.bind_eq_bind, Option.bind_some]
    cases literals[(t.byteAt (ip + 1)).toNat]? <;> rfl
  | push p =>
    cases p with
    | field => rfl
    | _ => exact guardedSlot_eq hw rfl
  | pop p =>
    cases p with
    | field => rfl
    | _ => exact guardedSlot_eq hw rfl
  | jump j wide =>
    simp only [guardedOperands, checkOperands, guardedDistance_eq hw, Option.bind_eq_bind,
      Option.bind_some, guardedTarget_eq]
    cases t.jumpTarget? ip j wide with
    | none => rfl
    | some target =>
      simp only [Option.bind_some]
      split
      · rename_i hlt
        simp [Array.getElem?_eq_getElem (show target < marks.size from hs ▸ hlt)]
      · rename_i hge
        simp [Array.getElem?_eq_none (show marks.size ≤ target by omega)]
  | _ => rfl

theorem guardedAll_eq {marks : Array Bool} (hs : marks.size = t.size)
    (hm : ∀ i, marks.getD i false = true → ∃ op, t.Whole i op) {l : List Nat}
    (hl : ∀ i ∈ l, i < t.size) : t.guardedAll literals arguments locals marks l =
      some (t.checkAll literals arguments locals marks l) := by
  induction l with
  | nil => rfl
  | cons i rest ih =>
    have hlt := hl i (List.mem_cons_self ..)
    have hrest := ih fun j hj => hl j (List.mem_cons_of_mem _ hj)
    have hmi := hm i
    have hmarks : i < marks.size := hs ▸ hlt
    rw [Array.getD_eq_getD_getElem?, Array.getElem?_eq_getElem hmarks] at hmi
    rw [guardedAll, checkAll, Array.getD_eq_getD_getElem?, Array.getElem?_eq_getElem hmarks]
    cases hmark : marks[i] with
    | false => simpa [hmark] using hrest
    | true =>
      obtain ⟨op, hw⟩ := hmi (by simpa using hmark)
      obtain ⟨byte, hbyte, hop⟩ := hw.opcode_byte
      simp only [hbyte, hop, guardedOperands_eq hs hw, hw.opcode, Option.getD_some, if_true]
      cases t.checkOperands literals arguments locals marks i op with
      | error => rfl
      | ok => exact hrest

/-! ### Depths -/

/-- An instruction of a tape that has passed the first two parts of the check: it is whole and
    where it jumps to there is another one. -/
structure Sited (t : Tape) (ip : Nat) (op : Opcode) : Prop where
  whole : t.Whole ip op
  lands : ∀ j wide, op = .jump j wide →
    ∃ target ∈ t.starts, j.Lands ip (t.distance ip wide) target

theorem guardedEffect_eq (hw : t.Whole ip op) :
    t.guardedEffect literals ip op = some (t.effect literals ip op) := by
  cases op with
  | send =>
    simp only [guardedEffect, effect, hw.getElem? (show 1 < _ by simp [Opcode.size]),
      Option.bind_eq_bind, Option.bind_some]
    cases literals[(t.byteAt (ip + 1)).toNat]? with
    | none => rfl
    | some l => cases l <;> rfl
  | _ => rfl

theorem guardedBranch_eq (hs : t.Sited ip op) {pops pushes depth after : Nat}
    (he : t.effect literals ip op = .ok (pops, pushes)) (hd : pops ≤ depth) :
    t.guardedBranch ip depth after op = some (t.branch? ip depth after op) := by
  cases op with
  | jump j wide =>
    rw [guardedBranch, branch?, guardedTaken, guardedDistance_eq hs.whole]
    cases j with
    | back =>
      obtain ⟨target, -, hl⟩ := hs.lands .back wide rfl
      cases hl with
      | back hl =>
        simp [taken, Nat.psub_eq_sub (show t.distance ip wide ≤ ip by omega)]
      | ahead hj => exact absurd rfl hj
    | greater =>
      cases he
      simp only [taken, Nat.psub_eq_sub hd, Option.bind_eq_bind, Option.bind_some, Option.map_some]
    | test on leavesNil => cases leavesNil <;> rfl
    | always => rfl
  | _ => rfl

theorem guardedVisit_eq (hs : t.Sited ip op) (depth : Nat) :
    t.guardedVisit literals ip depth = some (t.visit literals ip depth) := by
  obtain ⟨byte, hbyte, hop⟩ := hs.whole.opcode_byte
  simp only [guardedVisit, visit, hbyte, hop, hs.whole.opcode, guardedEffect_eq hs.whole,
    Option.bind_eq_bind, Option.bind_some]
  cases he : t.effect literals ip op with
  | error e => rfl
  | ok e =>
    obtain ⟨pops, pushes⟩ := e
    simp only
    split
    · rfl
    · rename_i hd
      have hd := Nat.le_of_not_lt hd
      simp only [Nat.psub_eq_sub hd, guardedBranch_eq hs he hd, Option.bind_some]
      split
      · split <;> cases op <;> rfl
      · cases op <;> rfl

/-- A visit of an instruction start leads to instruction starts. -/
theorem mem_starts_of_visit (hs : t.Sited ip op) (hip : ip ∈ t.starts) {depth : Nat} {v : Visit}
    (h : t.visit literals ip depth = .ok v) :
    ∀ x ∈ v.next.toList ++ v.branch.toList, x.1 ∈ t.starts := by
  obtain ⟨pops, pushes, hv⟩ := visit_describes h hs.whole.opcode
  intro x hx
  rw [hv.next, hv.branch, List.mem_append] at hx
  rcases hx with hx | hx
  · split at hx
    · rename_i hf
      obtain rfl : x = _ := by simpa using hx
      exact next_mem_startsFrom hip hs.whole.opcode (hv.inside hf)
    · cases hx
  · cases op with
    | jump j wide =>
      obtain ⟨target, hmem, hl⟩ := hs.lands j wide rfl
      obtain rfl : x = _ := by simpa [branch?] using hx
      cases hl with
      | back hl =>
        have : ip - t.distance ip wide = target := by omega
        simpa [taken, this] using hmem
      | ahead hj =>
        cases j with
        | back => exact absurd rfl hj
        | test on leavesNil => cases leavesNil <;> exact hmem
        | _ => exact hmem
    | _ => cases hx

section Explore

variable {depths : Array (Option Nat)} {depth bound : Nat} {rest : List (Nat × Nat)}
  (hip : ip < depths.size)

theorem explore_of_some {seen : Nat} (h : depths[ip] = some seen) :
    t.explore literals depths ((ip, depth) :: rest) bound =
      if seen = depth then t.explore literals depths rest bound
      else .error (.rejected ip ("stack depth " ++ depth.repr ++ " joins " ++ seen.repr)) := by
  rw [explore, dif_pos hip]
  split <;> rename_i hd <;> rw [h] at hd <;> cases hd
  rfl

theorem explore_of_none (h : depths[ip] = none) {v : Visit}
    (hv : t.visit literals ip depth = .ok v) :
    t.explore literals depths ((ip, depth) :: rest) bound =
      t.explore literals (depths.set ip (some depth))
        (v.next.toList ++ (v.branch.toList ++ rest)) (max bound v.peak) := by
  rw [explore, dif_pos hip]
  split <;> rename_i hd <;> rw [h] at hd <;> cases hd
  simp only [hv]

theorem explore_of_error (h : depths[ip] = none) {e : CompileError}
    (hv : t.visit literals ip depth = .error e) :
    t.explore literals depths ((ip, depth) :: rest) bound = .error e := by
  rw [explore, dif_pos hip]
  split <;> rename_i hd <;> rw [h] at hd <;> cases hd
  simp only [hv]

theorem guardedExplore_of_some {seen : Nat} (h : depths[ip] = some seen) :
    t.guardedExplore literals depths ((ip, depth) :: rest) bound =
      if seen = depth then t.guardedExplore literals depths rest bound
      else some (.error (.rejected ip
        ("stack depth " ++ depth.repr ++ " joins " ++ seen.repr))) := by
  rw [guardedExplore, dif_pos hip]
  split <;> rename_i hd <;> rw [h] at hd <;> cases hd
  rfl

theorem guardedExplore_of_none (h : depths[ip] = none) (hs : t.Sited ip op) {v : Visit}
    (hv : t.visit literals ip depth = .ok v) :
    t.guardedExplore literals depths ((ip, depth) :: rest) bound =
      t.guardedExplore literals (depths.set ip (some depth))
        (v.next.toList ++ (v.branch.toList ++ rest)) (max bound v.peak) := by
  rw [guardedExplore, dif_pos hip]
  split <;> rename_i hd <;> rw [h] at hd <;> cases hd
  simp only [guardedVisit_eq hs, hv]

theorem guardedExplore_of_error (h : depths[ip] = none) (hs : t.Sited ip op) {e : CompileError}
    (hv : t.visit literals ip depth = .error e) :
    t.guardedExplore literals depths ((ip, depth) :: rest) bound = some (.error e) := by
  rw [guardedExplore, dif_pos hip]
  split <;> rename_i hd <;> rw [h] at hd <;> cases hd
  simp only [guardedVisit_eq hs, hv]

end Explore

theorem guardedExplore_eq (hsited : ∀ i ∈ t.starts, ∃ op, t.Sited i op)
    {depths : Array (Option Nat)} {waiting : List (Nat × Nat)} {bound : Nat}
    (hd : depths.size = t.size) (hw : ∀ x ∈ waiting, x.1 ∈ t.starts) :
    t.guardedExplore literals depths waiting bound =
      some (t.explore literals depths waiting bound) := by
  induction depths, waiting, bound using explore.induct t literals with
  | case1 depths bound => rw [guardedExplore, explore]
  | case2 depths bound ip rest hip seen hseen ih =>
    rw [guardedExplore_of_some hip hseen, explore_of_some hip hseen, if_pos rfl, if_pos rfl]
    exact ih hd fun x hx => hw x (List.mem_cons_of_mem _ hx)
  | case3 depths bound ip depth rest hip seen hseen hne =>
    rw [guardedExplore_of_some hip hseen, explore_of_some hip hseen, if_neg hne, if_neg hne]
  | case4 depths bound ip depth rest hip hnone e hv =>
    obtain ⟨op, hs⟩ := hsited ip (hw (ip, depth) (List.mem_cons_self ..))
    rw [guardedExplore_of_error hip hnone hs hv, explore_of_error hip hnone hv]
  | case5 depths bound ip depth rest hip hnone v hv ih =>
    have hip' := hw (ip, depth) (List.mem_cons_self ..)
    obtain ⟨op, hs⟩ := hsited ip hip'
    rw [guardedExplore_of_none hip hnone hs hv, explore_of_none hip hnone hv]
    refine ih (by simpa using hd) fun x hx => ?_
    rw [← List.append_assoc, List.mem_append] at hx
    rcases hx with hx | hx
    · exact mem_starts_of_visit hs hip' hv x hx
    · exact hw x (List.mem_cons_of_mem _ hx)
  -- What waits is on the tape, and there is a depth for every offset of the tape.
  | case6 depths bound ip depth rest hip =>
    have hlt := lt_of_mem_startsFrom (hw (ip, depth) (List.mem_cons_self ..))
    omega

/-! ### The whole check -/

/-- Where the operands pass their check, a jump leads to an instruction start. -/
theorem sited_of_operands {marks : Array Bool} (hm : t.Marks marks) (hw : t.Whole ip op)
    (hc : t.checkOperands literals arguments locals marks ip op = .ok ()) : t.Sited ip op := by
  refine ⟨hw, ?_⟩
  rintro j wide rfl
  have hr := reads_of_opcode hw.opcode hw.fits
  rw [checkOperands_iff hm hr] at hc
  obtain ⟨target, hmem, hl⟩ := hc
  exact ⟨target, hmem, hr.distance_eq ▸ hl⟩

/-- The guarded check never gives up: it comes to what the check comes to. -/
theorem guardedCheck_eq (t : Tape) (literals : Array (Literal β)) (arguments locals : Nat) :
    t.guardedCheck literals arguments locals = some (t.check literals arguments locals) := by
  rw [guardedCheck, check, guardedScanFrom_eq (by simp), scan]
  split
  · rfl
  · rename_i hne
    cases hscan : t.scanFrom 0 (Array.replicate t.size false) with
    | error e => rfl
    | ok marks =>
      have hsize : marks.size = t.size := by simpa using size_of_scanFrom hscan
      have hmarks : t.Marks marks := marks_of_scan hscan
      have hwhole : ∀ i ∈ t.starts, ∃ op, t.Whole i op := (scanFrom_spec (by simp) hscan).2
      dsimp only
      rw [guardedAll_eq hsize (fun i hi => hwhole i (by simpa [hmarks i] using hi))
        fun i hi => List.mem_range.1 hi]
      cases hall : t.checkAll literals arguments locals marks (List.range t.size) with
      | error e => rfl
      | ok =>
        have hpos : 0 < t.size := by
          rw [Array.isEmpty_iff_size_eq_zero] at hne
          omega
        refine guardedExplore_eq (fun i hi => ?_) (by simp) fun x hx => ?_
        · obtain ⟨op, hw⟩ := hwhole i hi
          obtain ⟨op', ho, hc⟩ := checkAll_spec hall
            (List.mem_range.2 (lt_of_mem_startsFrom hi)) (by simpa [hmarks i] using hi)
          obtain rfl : op' = op := Option.some.inj (ho.symm.trans hw.opcode)
          exact ⟨op', sited_of_operands hmarks hw hc⟩
        · rw [List.mem_singleton] at hx
          rw [hx]
          exact mem_startsFrom_self hpos

end Parley.Tape
