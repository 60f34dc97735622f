import Parley.Proofs.Reading

/-!
# What suffices for the check of a tape

The check finds depths by itself. It does not fail on a tape that splits into instructions whose
operands suit them if there are depths at all that agree along every edge (`Tape.Agree`): the
search can only come to the depths that such an assignment has, so no two of them differ where
paths join.

* `explore_of_agree`: the search ends with depths when some agree;
* `check_of_agree`: the tape passes.
-/

namespace Parley.Tape

variable {β : Type} {t : Tape} {literals : Array (Literal β)} {ip : Nat}

/-! ### Instruction boundaries -/

theorem scanFrom_of_whole (marks : Array Bool)
    (h : ∀ i ∈ t.startsFrom ip, ∃ op, t.Whole i op) : ∃ marks', t.scanFrom ip marks =
    .ok marks' := by
  induction ip, marks using scanFrom.induct t with
  | case1 ip marks hlt hop =>
    obtain ⟨op, ho, -, -⟩ := h ip (mem_startsFrom_self hlt)
    rw [opcode?_of_lt hlt, hop] at ho
    cases ho
  | case2 ip marks hlt op hop hq =>
    obtain ⟨op', ho, hplain, -⟩ := h ip (mem_startsFrom_self hlt)
    rw [opcode?_of_lt hlt, hop, Option.some.injEq] at ho
    rw [ho, hplain] at hq
    cases hq
  | case3 ip marks hlt op hop hq hsz =>
    obtain ⟨op', ho, -, hfits⟩ := h ip (mem_startsFrom_self hlt)
    rw [opcode?_of_lt hlt, hop, Option.some.injEq] at ho
    rw [← ho] at hfits
    omega
  | case4 ip marks hlt op hop hq hsz _ ih =>
    rw [startsFrom_of_opcode hlt ((opcode?_of_lt hlt).trans hop)] at h
    obtain ⟨marks', hm⟩ := ih fun i hi => h i (List.mem_cons_of_mem _ hi)
    refine ⟨marks', ?_⟩
    rw [scanFrom, dif_pos hlt]
    simp only [hop, hq, hsz, Bool.false_eq_true, if_false]
    exact hm
  | case5 ip marks hge =>
    rw [scanFrom, dif_neg hge]
    exact ⟨marks, rfl⟩

/-! ### Operands -/

/-- The marks at exactly the instruction starts. -/
def Marks (t : Tape) (marks : Array Bool) : Prop :=
  ∀ i, marks.getD i false = decide (i ∈ t.starts)

theorem marks_of_scan {marks : Array Bool} (h : t.scan = .ok marks) : t.Marks marks := by
  intro i
  rw [(scanFrom_spec (by simp) h).1 i, starts]
  simp [Array.getD_eq_getD_getElem?, Array.getElem?_replicate]
  split <;> simp

theorem scan_of_whole (h : ∀ i ∈ t.starts, ∃ op, t.Whole i op) :
    ∃ marks, t.scan = .ok marks ∧ t.Marks marks := by
  obtain ⟨marks, hm⟩ := scanFrom_of_whole (Array.replicate t.size false) h
  exact ⟨marks, hm, marks_of_scan hm⟩

theorem checkAll_of_operands {arguments locals : Nat} {marks : Array Bool} {l : List Nat}
    (h : ∀ i ∈ l, marks.getD i false = true → ∃ op, t.opcode? i = some op ∧
      t.checkOperands literals arguments locals marks i op = .ok ()) :
    t.checkAll literals arguments locals marks l = .ok () := by
  induction l with
  | nil => rfl
  | cons i rest ih =>
    have hrest := ih fun j hj => h j (List.mem_cons_of_mem _ hj)
    rw [checkAll]
    split
    · rename_i hi
      obtain ⟨op, ho, hc⟩ := h i (List.mem_cons_self ..) hi
      rw [ho]
      dsimp only
      rw [hc]
      exact hrest
    · exact hrest

/-! ### Depths -/

/-- Depths that agree along every edge, from offset zero on. -/
structure Agree (t : Tape) (literals : Array (Literal β)) (depth? : Nat → Option Nat) : Prop where
  start : depth? 0 = some 0
  inside : ∀ ip d, depth? ip = some d → ip < t.size
  visits : ∀ ip d, depth? ip = some d → ∃ v, t.visit literals ip d = .ok v ∧
    ∀ x ∈ v.next.toList ++ v.branch.toList, depth? x.1 = some x.2

theorem explore_of_agree {depth? : Nat → Option Nat} (ha : t.Agree literals depth?)
    {depths : Array (Option Nat)} {waiting : List (Nat × Nat)} {bound : Nat}
    (hs : depths.size = t.size) (hd : ∀ ip d : Nat, depths[ip]? = some (some d) → depth? ip =
    some d)
    (hw : ∀ x ∈ waiting, depth? x.1 = some x.2) :
    ∃ r, t.explore literals depths waiting bound = .ok r := by
  induction depths, waiting, bound using explore.induct t literals with
  | case1 depths bound =>
    rw [explore]
    exact ⟨_, rfl⟩
  | case2 depths bound ip rest hip seen hseen ih =>
    rw [explore, dif_pos hip]
    split
    · rename_i s hs'
      rw [hseen] at hs'
      cases hs'
      rw [if_pos rfl]
      exact ih hs hd fun x hx => hw x (List.mem_cons_of_mem _ hx)
    · rename_i hs'
      rw [hseen] at hs'
      cases hs'
  -- Both depths are the one that was assigned.
  | case3 depths bound ip depth rest hip seen hseen hne =>
    have h₁ := hd ip seen (by simp [hip, hseen])
    have h₂ := hw (ip, depth) (List.mem_cons_self ..)
    exact absurd (Option.some.inj (h₁.symm.trans h₂)) hne
  | case4 depths bound ip depth rest hip hnone e hv =>
    obtain ⟨v, hv', -⟩ := ha.visits ip depth (hw (ip, depth) (List.mem_cons_self ..))
    rw [hv] at hv'
    cases hv'
  | case5 depths bound ip depth rest hip hnone v hv ih =>
    have hip' := hw (ip, depth) (List.mem_cons_self ..)
    obtain ⟨v', hv', hlead⟩ := ha.visits ip depth hip'
    obtain rfl : v = v' := Except.ok.inj (hv.symm.trans hv')
    rw [explore, dif_pos hip]
    split
    · rename_i s hs'
      rw [hnone] at hs'
      cases hs'
    · simp only [hv]
      refine ih (by simpa using hs) (fun i d hi => ?_) fun x hx => ?_
      · by_cases hii : ip = i
        · subst hii
          obtain rfl : depth = d := by simpa [hip] using hi
          exact hip'
        · exact hd i d (by simpa [Array.getElem?_set_ne hip hii] using hi)
      · rw [← List.append_assoc, List.mem_append] at hx
        rcases hx with hx | hx
        · exact hlead x hx
        · exact hw x (List.mem_cons_of_mem _ hx)
  | case6 depths bound ip depth rest hip =>
    have := ha.inside ip depth (hw (ip, depth) (List.mem_cons_self ..))
    omega

/-! ### The whole check -/

/-- A tape passes the check if its instructions are whole, their operands suit them and some
    depths agree. -/
theorem check_of_agree {arguments locals : Nat} (depth? : Nat → Option Nat)
    (hw : ∀ ip ∈ t.starts, ∃ op, t.Whole ip op)
    (ho : ∀ marks, t.Marks marks → ∀ ip ∈ t.starts, ∀ op, t.opcode? ip = some op →
      t.checkOperands literals arguments locals marks ip op = .ok ())
    (ha : t.Agree literals depth?) : ∃ r, t.check literals arguments locals = .ok r := by
  obtain ⟨marks, hscan, hm⟩ := scan_of_whole hw
  have hall : t.checkAll literals arguments locals marks (List.range t.size) = .ok () := by
    refine checkAll_of_operands fun i _ hi => ?_
    have hi : i ∈ t.starts := by simpa [hm i] using hi
    obtain ⟨op, hop, -⟩ := hw i hi
    exact ⟨op, hop, ho marks hm i hi op hop⟩
  have hne : t.isEmpty = false := by
    have := ha.inside 0 0 ha.start
    simp only [Array.isEmpty_eq_false_iff, ne_eq, ← Array.size_eq_zero_iff]
    omega
  rw [check, hne]
  simp only [Bool.false_eq_true, if_false, hscan, hall]
  -- The search starts with no depths, and with depth zero waiting at the first instruction.
  refine explore_of_agree ha (by simp) (fun ip d hd => ?_) fun x hx => ?_
  · simp [Array.getElem?_replicate] at hd
  · rw [List.mem_singleton] at hx
    rw [hx]
    exact ha.start

end Parley.Tape
