import Parley.StackBound

/-!
# What the check of a tape establishes

A tape that passes the check splits into whole instructions, every one of which has operands that
suit it, and the depths found by the search are a fixed point: the depth at an instruction
determines the depth at every instruction that may follow it.

* `check_whole`: an instruction start holds an instruction that is complete and not quickened,
  and the next one starts where it ends;
* `check_operands`: the operands at every instruction start pass their check;
* `check_settled`: the depths agree along every edge and stay within the bound.
-/

namespace Parley.Tape

variable {β : Type} {t : Tape} {literals : Array (Literal β)}

/-! ### Instruction starts -/

/-- An offset that holds an instruction which is complete and not quickened. -/
structure Whole (t : Tape) (ip : Nat) (op : Opcode) : Prop where
  opcode : t.opcode? ip = some op
  plain : op.isQuickened = false
  fits : ip + op.size ≤ t.size

theorem opcode?_of_lt {ip : Nat} (h : ip < t.size) : t.opcode? ip = Opcode.ofByte? t[ip] := by
  simp [opcode?, h]

theorem mem_startsFrom_self {ip : Nat} (h : ip < t.size) : ip ∈ t.startsFrom ip := by
  rw [startsFrom, dif_pos h]
  split <;> simp

theorem startsFrom_of_opcode {ip : Nat} {op : Opcode} (h : ip < t.size)
    (ho : t.opcode? ip = some op) : t.startsFrom ip = ip :: t.startsFrom (ip + op.size) := by
  rw [startsFrom, dif_pos h]
  simp [ho]

theorem lt_of_mem_startsFrom {ip i : Nat} (h : i ∈ t.startsFrom ip) : i < t.size := by
  induction ip using startsFrom.induct t with
  | case1 ip hlt op hop _ ih =>
    rw [startsFrom_of_opcode hlt hop] at h
    rcases List.mem_cons.1 h with rfl | h
    · exact hlt
    · exact ih h
  | case2 ip hlt hop =>
    rw [startsFrom, dif_pos hlt] at h
    simp only [hop, List.mem_singleton] at h
    exact h ▸ hlt
  | case3 ip hle =>
    rw [startsFrom, dif_neg hle] at h
    cases h

/-- Where an instruction ends inside the tape, another one starts. -/
theorem next_mem_startsFrom {ip i : Nat} {op : Opcode} (h : i ∈ t.startsFrom ip)
    (ho : t.opcode? i = some op) (hlt : i + op.size < t.size) : i + op.size ∈ t.startsFrom ip := by
  induction ip using startsFrom.induct t with
  | case1 ip hip op' hop _ ih =>
    rw [startsFrom_of_opcode hip hop] at h ⊢
    rcases List.mem_cons.1 h with rfl | h
    · obtain rfl : op' = op := Option.some.inj (hop.symm.trans ho)
      exact List.mem_cons_of_mem _ (mem_startsFrom_self hlt)
    · exact List.mem_cons_of_mem _ (ih h)
  | case2 ip hip hop =>
    rw [startsFrom, dif_pos hip] at h
    simp only [hop, List.mem_singleton] at h
    rw [h, hop] at ho
    cases ho
  | case3 ip hip =>
    rw [startsFrom, dif_neg hip] at h
    cases h

/-- A scan marks the instruction starts, all of which hold whole instructions. -/
theorem scanFrom_spec {ip : Nat} {marks marks' : Array Bool} (hs : marks.size = t.size)
    (h : t.scanFrom ip marks = .ok marks') :
    (∀ i, marks'.getD i false = (marks.getD i false || decide (i ∈ t.startsFrom ip))) ∧
      ∀ i ∈ t.startsFrom ip, ∃ op, t.Whole i op := by
  induction ip, marks using scanFrom.induct t with
  | case1 ip marks hlt hop =>
    rw [scanFrom, dif_pos hlt] at h
    simp [hop] at h
  | case2 ip marks hlt op hop hq =>
    rw [scanFrom, dif_pos hlt] at h
    simp [hop, hq] at h
  | case3 ip marks hlt op hop hq hsz =>
    rw [scanFrom, dif_pos hlt] at h
    simp [hop, hq, hsz] at h
  -- An instruction that fits: its start is marked, and the rest of the tape is scanned.
  | case4 ip marks hlt op hop hq hsz _ ih =>
    rw [scanFrom, dif_pos hlt] at h
    simp only [hop, hq, hsz, Bool.false_eq_true, if_false] at h
    obtain ⟨hm, hw⟩ := ih (by simpa using hs) h
    have ho : t.opcode? ip = some op := (opcode?_of_lt hlt).trans hop
    rw [startsFrom_of_opcode hlt ho]
    refine ⟨fun i => ?_, fun i hi => ?_⟩
    · rw [hm i]
      -- Setting the mark changes the answer at this start only.
      by_cases hi : i = ip
      · subst hi
        simp [Array.getD_eq_getD_getElem?, hs, hlt]
      · simp [Array.getD_eq_getD_getElem?, Array.getElem?_setIfInBounds_ne (Ne.symm hi), hi]
    · rcases List.mem_cons.1 hi with rfl | hi
      · exact ⟨op, ho, by simpa using hq, by omega⟩
      · exact hw i hi
  | case5 ip marks hle =>
    rw [scanFrom, dif_neg hle] at h
    cases h
    rw [startsFrom, dif_neg hle]
    simp

/-! ### Operands -/

theorem checkAll_spec {arguments locals : Nat} {marks : Array Bool} {l : List Nat}
    (h : t.checkAll literals arguments locals marks l = .ok ()) {ip : Nat} (hip : ip ∈ l)
    (hm : marks.getD ip false = true) : ∃ op, t.opcode? ip = some op ∧
      t.checkOperands literals arguments locals marks ip op = .ok () := by
  induction l with
  | nil => cases hip
  | cons i rest ih =>
    rw [checkAll] at h
    split at h
    · split at h
      · cases h
      · rename_i op ho
        split at h
        · cases h
        · rename_i hc
          rcases List.mem_cons.1 hip with rfl | hip
          · exact ⟨op, ho, hc⟩
          · exact ih h hip
    · rename_i hi
      rcases List.mem_cons.1 hip with rfl | hip
      · exact absurd hm hi
      · exact ih h hip

/-! ### Depths -/

/-- Where an instruction branches to, and with how many entries. -/
def branch? (t : Tape) (ip before after : Nat) : Opcode → Option (Nat × Nat)
  | .jump j wide => some (t.taken ip j wide before after)
  | _ => none

/-- What a visit with a depth says about the instruction at an offset. -/
structure Visit.Describes (v : Visit) (t : Tape) (literals : Array (Literal β))
    (ip depth : Nat) (op : Opcode) (pops pushes : Nat) : Prop where
  effect : t.effect literals ip op = .ok (pops, pushes)
  enough : pops ≤ depth
  next : v.next = if fallsThrough op then some (ip + op.size, depth - pops + pushes) else none
  branch : v.branch = t.branch? ip depth (depth - pops + pushes) op
  inside : fallsThrough op → ip + op.size < t.size
  peak : v.peak = max (depth - pops + pushes) depth

namespace Visit.Describes

variable {v : Visit} {ip depth pops pushes : Nat} {op : Opcode}
  (hv : v.Describes t literals ip depth op pops pushes)

include hv

/-- A visit is about the effect that the instruction has. -/
theorem effect_eq {p q : Nat} (h : t.effect literals ip op = .ok (p, q)) :
    pops = p ∧ pushes = q := by
  have hpq := hv.effect.symm.trans h
  simpa using hpq

/-- What a visit says of an instruction that goes on behind itself: the stack is deep enough, and
    how deep it is then. -/
theorem goesOn {p q : Nat} (h : t.effect literals ip op = .ok (p, q)) (hf : fallsThrough op) :
    p ≤ depth ∧ v.next = some (ip + op.size, depth - p + q) := by
  obtain ⟨rfl, rfl⟩ := hv.effect_eq h
  exact ⟨hv.enough, by rw [hv.next, if_pos hf]⟩

end Visit.Describes

theorem visit_describes {ip depth : Nat} {op : Opcode} {v : Visit}
    (h : t.visit literals ip depth = .ok v) (ho : t.opcode? ip = some op) :
    ∃ pops pushes, v.Describes t literals ip depth op pops pushes := by
  rw [visit, ho] at h
  dsimp only at h
  split at h
  · cases h
  · rename_i pops pushes he
    split at h
    · cases h
    · rename_i hd
      have enough := Nat.le_of_not_lt hd
      split at h
      · rename_i hf
        split at h
        -- The last instruction may not fall off the end of the tape.
        · cases h
        · rename_i hin
          cases h
          exact ⟨pops, pushes, he, enough, (if_pos hf).symm, by cases op <;> rfl,
            fun _ => Nat.lt_of_not_le hin, rfl⟩
      · rename_i hf
        cases h
        exact ⟨pops, pushes, he, enough, (if_neg hf).symm, by cases op <;> rfl,
          fun h => absurd h hf, rfl⟩

/-- An instruction that may be visited with a depth, holds no more than the bound, and leads to
    instructions that have the depths it leaves. -/
def SettledAt (t : Tape) (literals : Array (Literal β)) (depths : Array (Option Nat))
    (bound ip d : Nat) : Prop :=
  ∃ v, t.visit literals ip d = .ok v ∧ v.peak ≤ bound ∧
    ∀ x ∈ v.next.toList ++ v.branch.toList, depths[x.1]? = some (some x.2)

/-- Depths that agree along every edge. -/
structure Settled (t : Tape) (literals : Array (Literal β)) (depths : Array (Option Nat))
    (bound : Nat) : Prop where
  start : depths[0]? = some (some 0)
  visits : ∀ ip d : Nat, depths[ip]? = some (some d) → t.SettledAt literals depths bound ip d

/-- The search keeps the depths that it has, gives a depth to all that waits, and settles what it
    visits. -/
theorem explore_spec {depths final : Array (Option Nat)} {waiting : List (Nat × Nat)}
    {bound m : Nat} (h : t.explore literals depths waiting bound = .ok (final, m)) :
    bound ≤ m ∧ (∀ ip d : Nat, depths[ip]? = some (some d) → final[ip]? = some (some d)) ∧
      (∀ x ∈ waiting, final[x.1]? = some (some x.2)) ∧
      ∀ ip d : Nat, final[ip]? = some (some d) →
        depths[ip]? = some (some d) ∨ t.SettledAt literals final m ip d := by
  induction depths, waiting, bound using explore.induct t literals with
  | case1 depths bound =>
    rw [explore] at h
    cases h
    exact ⟨Nat.le_refl _, fun _ _ h => h, by simp, fun _ _ h => .inl h⟩
  -- Seen before with the same depth: nothing happens.
  | case2 depths bound ip rest hip seen hd ih =>
    rw [explore, dif_pos hip] at h
    split at h
    · rename_i s hs
      rw [hd] at hs
      cases hs
      rw [if_pos rfl] at h
      obtain ⟨hb, hk, hw, hv⟩ := ih h
      refine ⟨hb, hk, fun x hx => ?_, hv⟩
      rcases List.mem_cons.1 hx with rfl | hx
      · exact hk _ _ (by simp [hip, hd])
      · exact hw x hx
    · rename_i hs
      rw [hd] at hs
      cases hs
  | case3 depths bound ip depth rest hip seen hd hne =>
    rw [explore, dif_pos hip] at h
    split at h
    · rename_i s hs
      rw [hd] at hs
      cases hs
      rw [if_neg hne] at h
      cases h
    · rename_i hs
      rw [hd] at hs
      cases hs
  | case4 depths bound ip depth rest hip hd e hv =>
    rw [explore, dif_pos hip] at h
    split at h
    · rename_i s hs
      rw [hd] at hs
      cases hs
    · simp [hv] at h
  -- Seen for the first time: it gets its depth, and where it leads to waits.
  | case5 depths bound ip depth rest hip hd v hv ih =>
    rw [explore, dif_pos hip] at h
    split at h
    · rename_i s hs
      rw [hd] at hs
      cases hs
    · simp only [hv] at h
      obtain ⟨hb, hk, hw, hvs⟩ := ih h
      -- The search never takes back a depth, so the one that was given now is final.
      have hhere : final[ip]? = some (some depth) := hk _ _ (by simp [hip])
      refine ⟨Nat.le_trans (Nat.le_max_left _ _) hb, fun i d hi => hk i d ?_, fun x hx => ?_,
        fun i d hi => ?_⟩
      · have hne : ip ≠ i := by
          rintro rfl
          simp [hip, hd] at hi
        simpa [Array.getElem?_set_ne hip hne] using hi
      · rcases List.mem_cons.1 hx with rfl | hx
        · exact hhere
        · exact hw x (by simp [hx])
      · by_cases hii : ip = i
        · subst hii
          -- What this instruction leads to was waiting when the search went on.
          obtain rfl : depth = d := by simpa [hhere] using hi
          refine .inr ⟨v, hv, Nat.le_trans (Nat.le_max_right _ _) hb, fun x hx => hw x ?_⟩
          rcases List.mem_append.1 hx with hx | hx <;> simp [hx]
        · rcases hvs i d hi with hi | hi
          · exact .inl (by simpa [Array.getElem?_set_ne hip hii] using hi)
          · exact .inr hi
  | case6 depths bound ip depth rest hip =>
    rw [explore, dif_neg hip] at h
    cases h

/-! ### The whole check -/

/-- What is known of a tape that passes the check. -/
structure Checked (t : Tape) (literals : Array (Literal β)) (arguments locals : Nat)
    (depths : Array (Option Nat)) (bound : Nat) : Prop where
  nonempty : 0 < t.size
  whole : ∀ ip ∈ t.starts, ∃ op, t.Whole ip op
  operands : ∀ ip ∈ t.starts, ∀ op, t.opcode? ip = some op → ∃ marks : Array Bool,
    (∀ i, marks.getD i false = decide (i ∈ t.starts)) ∧
      t.checkOperands literals arguments locals marks ip op = .ok ()
  settled : t.Settled literals depths bound

theorem checked_of_check {arguments locals bound : Nat} {depths : Array (Option Nat)}
    (h : t.check literals arguments locals = .ok (depths, bound)) :
    t.Checked literals arguments locals depths bound := by
  rw [check] at h
  split at h
  · cases h
  · rename_i hne
    have hpos : 0 < t.size := by
      rw [Array.isEmpty_iff_size_eq_zero] at hne
      omega
    split at h
    · cases h
    · rename_i marks hscan
      obtain ⟨hm, hw⟩ := scanFrom_spec (by simp) hscan
      have hmarks : ∀ i, marks.getD i false = decide (i ∈ t.starts) := fun i => by
        rw [hm i, starts]
        simp [Array.getD_eq_getD_getElem?, Array.getElem?_replicate]
        split <;> simp
      split at h
      · cases h
      · rename_i hall
        obtain ⟨-, -, hstart, hv⟩ := explore_spec h
        refine ⟨hpos, hw, fun ip hip op ho => ⟨marks, hmarks, ?_⟩, hstart (0, 0) (by simp),
          fun ip d hd => ?_⟩
        · obtain ⟨op', ho', hc⟩ := checkAll_spec hall
            (List.mem_range.2 (lt_of_mem_startsFrom hip)) (by simp [hmarks, hip])
          obtain rfl : op' = op := Option.some.inj (ho'.symm.trans ho)
          exact hc
        -- The search started without any depths, so each one there is was settled.
        · rcases hv ip d hd with hd | hd
          · simp [Array.getElem?_replicate] at hd
          · exact hd

/-- A jump of a checked tape leads to an instruction start. -/
theorem Checked.jumpTarget {arguments locals bound : Nat} {depths : Array (Option Nat)}
    (hc : t.Checked literals arguments locals depths bound) {ip : Nat} (hip : ip ∈ t.starts)
    {j : Jump} {wide : Bool} (ho : t.opcode? ip = some (.jump j wide)) :
    ∃ target ∈ t.starts, t.jumpTarget? ip j wide = some target := by
  obtain ⟨marks, hmarks, hok⟩ := hc.operands ip hip _ ho
  simp only [checkOperands] at hok
  split at hok
  · rename_i ht
    cases htarget : t.jumpTarget? ip j wide with
    | none => simp [htarget] at ht
    | some target =>
      refine ⟨target, ?_, rfl⟩
      -- The check asks for a mark at the target, and only starts are marked.
      have := hmarks target
      rw [Array.getD_eq_getD_getElem?] at this
      simpa [htarget, this] using ht
  · cases hok

end Parley.Tape
