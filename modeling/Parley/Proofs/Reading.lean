import Mathlib.Data.Set.Insert
import Parley.Proofs.Check

/-!
# Reading tapes

What an offset of a tape holds is an opcode with the operand bytes that belong to it
(`Tape.Reads`). A tape that splits into whole instructions (`Tape.Splits`) can be written on
behind its end and, instruction by instruction, over: neither moves the instructions that are
there.

* `Splits.starts_append`: writing on adds an instruction start where the tape ended;
* `starts_congr`: writing over keeps the starts, so long as the lengths stay;
* `apart`: instructions do not overlap.
-/

namespace Parley.Tape

variable {t t' : Tape} {ip i j : Nat} {op : Opcode} {first second : UInt8}

/-! ### Instructions -/

/-- An offset that holds an instruction, complete and with the operand bytes it has; a byte that
    it does not have counts as zero. -/
structure Reads (t : Tape) (ip : Nat) (op : Opcode) (first second : UInt8) : Prop where
  opcode : t.opcode? ip = some op
  fits : ip + op.size ≤ t.size
  noFirst : op.size < 2 → first = 0
  noSecond : op.size < 3 → second = 0
  first : 2 ≤ op.size → t.byteAt (ip + 1) = first
  second : 3 ≤ op.size → t.byteAt (ip + 2) = second

/-- An instruction is there on any tape that has its bytes. -/
theorem Reads.congr (h : t.Reads ip op first second) (hsize : t.size ≤ t'.size)
    (hsame : ∀ i, ip ≤ i → i < ip + op.size → t'[i]? = t[i]?) : t'.Reads ip op first second := by
  have hpos := op.size_pos
  refine ⟨?_, h.fits.trans hsize, h.noFirst, h.noSecond, fun h₂ => ?_, fun h₃ => ?_⟩
  · rw [opcode?, hsame ip le_rfl (by omega), ← h.opcode, opcode?]
  · rw [byteAt, Array.getD_eq_getD_getElem?, hsame (ip + 1) (by omega) (by omega), ← h.first h₂,
      byteAt, Array.getD_eq_getD_getElem?]
  · rw [byteAt, Array.getD_eq_getD_getElem?, hsame (ip + 2) (by omega) (by omega), ← h.second h₃,
      byteAt, Array.getD_eq_getD_getElem?]

/-- A tape all of whose instructions are complete. -/
def Splits (t : Tape) : Prop :=
  ∀ ip ∈ t.starts, ∃ op, t.opcode? ip = some op ∧ ip + op.size ≤ t.size

theorem Checked.splits {β : Type} {literals : Array (Literal β)} {arguments locals bound : Nat}
    {depths : Array (Option Nat)} (h : t.Checked literals arguments locals depths bound) :
    t.Splits := fun ip hip => by
  obtain ⟨op, hwhole⟩ := h.whole ip hip
  exact ⟨op, hwhole.opcode, hwhole.fits⟩

theorem reads_of_opcode (ho : t.opcode? ip = some op) (hfits : ip + op.size ≤ t.size) :
    t.Reads ip op (if 2 ≤ op.size then t.byteAt (ip + 1) else 0)
      (if 3 ≤ op.size then t.byteAt (ip + 2) else 0) :=
  ⟨ho, hfits, fun h => if_neg (by omega), fun h => if_neg (by omega), fun h => (if_pos h).symm,
    fun h => (if_pos h).symm⟩

theorem Splits.reads (ht : t.Splits) (h : ip ∈ t.starts) :
    ∃ op first second, t.Reads ip op first second := by
  obtain ⟨op, ho, hfits⟩ := ht ip h
  exact ⟨op, _, _, reads_of_opcode ho hfits⟩

theorem Splits.reads_at (ht : t.Splits) (h : ip ∈ t.starts) (ho : t.opcode? ip = some op) :
    ∃ first second, t.Reads ip op first second := by
  obtain ⟨op', first, second, hr⟩ := ht.reads h
  obtain rfl : op' = op := Option.some.inj (hr.opcode.symm.trans ho)
  exact ⟨first, second, hr⟩

/-- The bytes of an instruction of three. -/
theorem Reads.bytes (h : t.Reads ip op first second) (hsize : op.size = 3) :
    (∃ b, t[ip]? = some b ∧ Opcode.ofByte? b = some op) ∧ t[ip + 1]? = some first ∧
      t[ip + 2]? = some second := by
  have hfits := h.fits
  have hopcode := h.opcode
  have hfirst := h.first (by omega)
  have hsecond := h.second (by omega)
  simp only [opcode?, byteAt, Array.getD_eq_getD_getElem?] at hopcode hfirst hsecond
  rw [Array.getElem?_eq_getElem (show ip < t.size by omega)] at hopcode ⊢
  rw [Array.getElem?_eq_getElem (show ip + 1 < t.size by omega)] at hfirst ⊢
  rw [Array.getElem?_eq_getElem (show ip + 2 < t.size by omega)] at hsecond ⊢
  exact ⟨⟨_, rfl, hopcode⟩, congrArg some hfirst, congrArg some hsecond⟩

theorem reads_of_bytes {b : UInt8} (hsize : op.size = 3) (hb : t[ip]? = some b)
    (ho : Opcode.ofByte? b = some op) (hfirst : t[ip + 1]? = some first)
    (hsecond : t[ip + 2]? = some second) : t.Reads ip op first second where
  opcode := by rw [opcode?, hb, ← ho]
  fits := by
    have := (Array.getElem?_eq_some_iff.1 hsecond).1
    omega
  noFirst h := by omega
  noSecond h := by omega
  first _ := by rw [byteAt, Array.getD_eq_getD_getElem?, hfirst, Option.getD_some]
  second _ := by rw [byteAt, Array.getD_eq_getD_getElem?, hsecond, Option.getD_some]

/-- An offset holds one instruction only. -/
theorem Reads.unique (h : t.Reads ip op first second) {op' : Opcode} {first' second' : UInt8}
    (h' : t.Reads ip op' first' second') : op' = op ∧ first' = first ∧ second' = second := by
  obtain rfl : op' = op := Option.some.inj (h'.opcode.symm.trans h.opcode)
  refine ⟨rfl, ?_, ?_⟩
  · by_cases h₂ : 2 ≤ op'.size
    · rw [← h.first h₂, h'.first h₂]
    · rw [h.noFirst (by omega), h'.noFirst (by omega)]
  · by_cases h₃ : 3 ≤ op'.size
    · rw [← h.second h₃, h'.second h₃]
    · rw [h.noSecond (by omega), h'.noSecond (by omega)]

/-- An offset at which an instruction starts, or the end, where the next one will. -/
def Place (t : Tape) (ip : Nat) : Prop :=
  ip ∈ t.starts ∨ ip = t.size

theorem le_of_mem_startsFrom (h : i ∈ t.startsFrom ip) : ip ≤ i := by
  induction ip using startsFrom.induct t with
  | case1 ip hlt op hop _ ih =>
    rw [startsFrom_of_opcode hlt hop] at h
    rcases List.mem_cons.1 h with rfl | h
    · exact le_rfl
    · exact (Nat.le_add_right _ _).trans (ih h)
  | case2 ip hlt hop =>
    rw [startsFrom, dif_pos hlt] at h
    simp only [hop, List.mem_singleton] at h
    exact h.ge
  | case3 ip hle =>
    rw [startsFrom, dif_neg hle] at h
    cases h

/-- Instructions do not overlap. -/
theorem apart (hi : i ∈ t.startsFrom ip) (hj : j ∈ t.startsFrom ip) (h : i < j)
    (ho : t.opcode? i = some op) : i + op.size ≤ j := by
  induction ip using startsFrom.induct t with
  | case1 ip hlt op' hop _ ih =>
    rw [startsFrom_of_opcode hlt hop] at hi hj
    rcases List.mem_cons.1 hj with rfl | hj
    · have hi := le_of_mem_startsFrom ((startsFrom_of_opcode hlt hop).symm ▸ hi)
      omega
    · rcases List.mem_cons.1 hi with rfl | hi
      · obtain rfl : op' = op := Option.some.inj (hop.symm.trans ho)
        exact le_of_mem_startsFrom hj
      · exact ih hi hj
  | case2 ip hlt hop =>
    rw [startsFrom, dif_pos hlt] at hi hj
    simp only [hop, List.mem_singleton] at hi hj
    omega
  | case3 ip hle =>
    rw [startsFrom, dif_neg hle] at hi
    cases hi

/-- The starts ascend. -/
theorem startsFrom_pairwise (t : Tape) (ip : Nat) : (t.startsFrom ip).Pairwise (· < ·) := by
  induction ip using startsFrom.induct t with
  | case1 ip hlt op hop _ ih =>
    rw [startsFrom_of_opcode hlt hop]
    refine .cons (fun i hi => ?_) ih
    have := le_of_mem_startsFrom hi
    have := op.size_pos
    omega
  | case2 ip hlt hop =>
    rw [startsFrom, dif_pos hlt]
    simp only [hop]
    exact List.pairwise_singleton _ _
  | case3 ip hge =>
    rw [startsFrom, dif_neg hge]
    exact .nil

/-- No instruction starts behind the last one. -/
theorem le_getLastD_starts (h : ip ∈ t.starts) :
    ip ≤ t.starts.getLastD 0 ∧ t.starts.getLastD 0 ∈ t.starts := by
  have hne : t.starts ≠ [] := List.ne_nil_of_mem h
  rw [List.getLastD_eq_getLast?, List.getLast?_eq_some_getLast hne, Option.getD_some]
  refine ⟨?_, List.getLast_mem hne⟩
  have hsplit := List.dropLast_concat_getLast hne
  -- The starts ascend, so the last one is behind all others.
  have hsorted : t.starts.Pairwise (· < ·) := startsFrom_pairwise t 0
  rw [← hsplit, List.pairwise_append] at hsorted
  have hmem := h
  rw [← hsplit, List.mem_append, List.mem_singleton] at hmem
  rcases hmem with hbefore | heq
  · exact (hsorted.2.2 ip hbefore _ (List.mem_singleton_self _)).le
  · exact heq.le

/-- An instruction that reaches to the end is the last one. -/
theorem getLastD_starts (h : ip ∈ t.starts) (ho : t.opcode? ip = some op)
    (hend : t.size ≤ ip + op.size) : t.starts.getLastD 0 = ip := by
  obtain ⟨hle, hlast⟩ := le_getLastD_starts h
  have hlt := lt_of_mem_startsFrom hlast
  by_contra hne
  have := apart h hlast (by omega) ho
  omega

/-- Behind an instruction starts the next one, or the tape ends. -/
theorem Splits.next (ht : t.Splits) (h : ip ∈ t.starts) (ho : t.opcode? ip = some op) :
    t.Place (ip + op.size) := by
  obtain ⟨op', ho', hfits⟩ := ht ip h
  obtain rfl : op' = op := Option.some.inj (ho'.symm.trans ho)
  rcases hfits.lt_or_eq with hlt | heq
  · exact .inl (next_mem_startsFrom h ho hlt)
  · exact .inr heq

/-- The last instruction reaches to the end. -/
theorem Splits.ends (ht : t.Splits) (h : ip ∈ t.starts) (ho : t.opcode? ip = some op)
    (hlast : ip = t.starts.getLastD 0) : ip + op.size = t.size := by
  rcases ht.next h ho with hnext | hend
  · have := (le_getLastD_starts hnext).1
    have := op.size_pos
    omega
  · exact hend

/-! ### Writing on -/

theorem byteAt_append_of_lt (s : Tape) (h : i < t.size) : (t ++ s).byteAt i = t.byteAt i := by
  simp [byteAt, Array.getD_eq_getD_getElem?, Array.getElem?_append_left h]

theorem opcode?_append_of_lt (s : Tape) (h : i < t.size) :
    (t ++ s).opcode? i = t.opcode? i := by
  simp [opcode?, Array.getElem?_append_left h]

theorem Reads.append (h : t.Reads ip op first second) (s : Tape) :
    (t ++ s).Reads ip op first second := by
  have hfits := h.fits
  have hpos := op.size_pos
  refine ⟨?_, ?_, h.noFirst, h.noSecond, fun h₂ => ?_, fun h₃ => ?_⟩
  · rw [opcode?_append_of_lt s (by omega), h.opcode]
  · rw [Array.size_append]
    omega
  · rw [byteAt_append_of_lt s (by omega), h.first h₂]
  · rw [byteAt_append_of_lt s (by omega), h.second h₃]

theorem startsFrom_append (s : Tape) (hle : ip ≤ t.size)
    (ht : ∀ i ∈ t.startsFrom ip, ∃ op, t.opcode? i = some op ∧ i + op.size ≤ t.size) :
    (t ++ s).startsFrom ip = t.startsFrom ip ++ (t ++ s).startsFrom t.size := by
  induction ip using startsFrom.induct t with
  | case1 ip hlt op hop _ ih =>
    rw [startsFrom_of_opcode hlt hop] at ht ⊢
    have hlt' : ip < (t ++ s).size := by rw [Array.size_append]; omega
    rw [startsFrom_of_opcode hlt' ((opcode?_append_of_lt s hlt).trans hop)]
    obtain ⟨op', hop', hfits⟩ := ht ip (List.mem_cons_self ..)
    obtain rfl : op' = op := Option.some.inj (hop'.symm.trans hop)
    rw [List.cons_append, ih hfits fun i hi => ht i (List.mem_cons_of_mem _ hi)]
  | case2 ip hlt hop =>
    obtain ⟨op, hop', -⟩ := ht ip (mem_startsFrom_self hlt)
    rw [hop] at hop'
    cases hop'
  | case3 ip hge =>
    have heq : ip = t.size := by omega
    rw [startsFrom.eq_1 t, dif_neg hge, List.nil_append, heq]

/-- The bytes of an instruction. -/
def written (op : Opcode) (operands : List UInt8) : Tape :=
  (op.byte :: operands).toArray

theorem opcode?_written (t : Tape) (op : Opcode) (operands : List UInt8) :
    (t ++ written op operands).opcode? t.size = some op := by
  simp [opcode?, written]

theorem byteAt_written (t : Tape) (op : Opcode) (operands : List UInt8) (i : Nat) :
    (t ++ written op operands).byteAt (t.size + (i + 1)) = operands.getD i 0 := by
  simp [byteAt, written, Array.getD_eq_getD_getElem?, List.getD_eq_getElem?_getD,
    Array.getElem?_append_right]

theorem size_written {operands : List UInt8} (hn : operands.length + 1 = op.size) :
    (t ++ written op operands).size = t.size + op.size := by
  simp [written, hn]

theorem reads_written (t : Tape) {operands : List UInt8} (hn : operands.length + 1 = op.size) :
    (t ++ written op operands).Reads t.size op (operands.getD 0 0) (operands.getD 1 0) where
  opcode := opcode?_written t op operands
  fits := (size_written hn).ge
  first _ := byteAt_written t op operands 0
  second _ := byteAt_written t op operands 1
  noFirst h := by rw [List.getD_eq_getElem?_getD, List.getElem?_eq_none (by omega)]; rfl
  noSecond h := by rw [List.getD_eq_getElem?_getD, List.getElem?_eq_none (by omega)]; rfl

/-- Writing on adds an instruction start where the tape ended. -/
theorem Splits.starts_append (ht : t.Splits) {operands : List UInt8}
    (hn : operands.length + 1 = op.size) :
    (t ++ written op operands).starts = t.starts ++ [t.size] := by
  have hsize := size_written (t := t) hn
  have hpos := op.size_pos
  have hend : (t ++ written op operands).startsFrom (t.size + op.size) = [] := by
    rw [startsFrom, dif_neg (by omega)]
  rw [starts, startsFrom_append _ (Nat.zero_le _) ht,
    startsFrom_of_opcode (by omega) (opcode?_written t op operands), hend]
  rfl

theorem Splits.append (ht : t.Splits) {operands : List UInt8}
    (hn : operands.length + 1 = op.size) : (t ++ written op operands).Splits := by
  intro ip hip
  rw [ht.starts_append hn, List.mem_append, List.mem_singleton] at hip
  rcases hip with hip | rfl
  · obtain ⟨op', first, second, h⟩ := ht.reads hip
    have h := h.append (written op operands)
    exact ⟨op', h.opcode, h.fits⟩
  · exact ⟨op, opcode?_written t op operands, (size_written hn).ge⟩

/-- Where the tape ended, the new instruction starts. -/
theorem Splits.mem_starts_append (ht : t.Splits) {operands : List UInt8}
    (hn : operands.length + 1 = op.size) (h : t.Place ip) :
    ip ∈ (t ++ written op operands).starts := by
  rw [ht.starts_append hn, List.mem_append, List.mem_singleton]
  exact h

/-! ### Writing over -/

theorem startsFrom_congr (hs : t'.size = t.size)
    (h : ∀ i ∈ t.startsFrom ip, (t'.opcode? i).map Opcode.size = (t.opcode? i).map Opcode.size) :
    t'.startsFrom ip = t.startsFrom ip := by
  induction ip using startsFrom.induct t with
  | case1 ip hlt op hop _ ih =>
    rw [startsFrom_of_opcode hlt hop] at h ⊢
    have hip := h ip (List.mem_cons_self ..)
    rw [hop, Option.map_some, Option.map_eq_some_iff] at hip
    obtain ⟨op', hop', hsize⟩ := hip
    rw [startsFrom_of_opcode (hs ▸ hlt) hop', hsize,
      ih fun i hi => h i (List.mem_cons_of_mem _ hi)]
  | case2 ip hlt hop =>
    have hip := h ip (mem_startsFrom_self hlt)
    rw [hop, Option.map_none, Option.map_eq_none_iff] at hip
    rw [startsFrom, dif_pos (hs ▸ hlt), startsFrom, dif_pos hlt]
    simp only [hop, hip]
  | case3 ip hge =>
    rw [startsFrom, dif_neg (hs ▸ hge), startsFrom, dif_neg hge]

/-- Writing over keeps the starts, so long as the lengths stay. -/
theorem starts_congr (hs : t'.size = t.size)
    (h : ∀ i ∈ t.starts, (t'.opcode? i).map Opcode.size = (t.opcode? i).map Opcode.size) :
    t'.starts = t.starts :=
  startsFrom_congr hs h

/-- A tape that differs from another one at most in the bytes of one instruction. -/
structure DiffersAt (t t' : Tape) (ip : Nat) (op : Opcode) : Prop where
  size : t'.size = t.size
  elsewhere : ∀ i, i < ip ∨ ip + op.size ≤ i → t'[i]? = t[i]?

theorem DiffersAt.byteAt (h : t.DiffersAt t' ip op) (hi : i < ip ∨ ip + op.size ≤ i) :
    t'.byteAt i = t.byteAt i := by
  simp [Tape.byteAt, Array.getD_eq_getD_getElem?, h.elsewhere i hi]

/-- Setting a byte of an instruction. -/
theorem DiffersAt.set {b : UInt8} (hle : ip ≤ i) (hlt : i < ip + op.size) :
    t.DiffersAt (t.setIfInBounds i b) ip op where
  size := by simp
  elsewhere k hk := by rw [Array.getElem?_setIfInBounds_ne (by omega)]

theorem DiffersAt.trans {t'' : Tape} (h : t.DiffersAt t' ip op) (h' : t'.DiffersAt t'' ip op) :
    t.DiffersAt t'' ip op :=
  ⟨h'.size.trans h.size, fun i hi => (h'.elsewhere i hi).trans (h.elsewhere i hi)⟩

theorem byteAt_set_of_ne {b : UInt8} (h : i ≠ j) : byteAt (t.setIfInBounds i b) j = t.byteAt j := by
  rw [Tape.byteAt, Tape.byteAt, Array.getD_eq_getD_getElem?, Array.getD_eq_getD_getElem?,
    Array.getElem?_setIfInBounds_ne h]

theorem byteAt_set_self {b : UInt8} (h : i < t.size) : byteAt (t.setIfInBounds i b) i = b := by
  rw [Tape.byteAt, Array.getD_eq_getD_getElem?, Array.getElem?_setIfInBounds_self, if_pos h]
  rfl

theorem opcode?_set_of_ne {b : UInt8} (h : i ≠ j) :
    opcode? (t.setIfInBounds i b) j = t.opcode? j := by
  rw [opcode?, opcode?, Array.getElem?_setIfInBounds_ne h]

theorem opcode?_set_self (op : Opcode) (h : i < t.size) :
    opcode? (t.setIfInBounds i op.byte) i = some op := by
  rw [opcode?, Array.getElem?_setIfInBounds_self, if_pos h]
  exact op.ofByte?_byte

/-- Writing another opcode over that of an instruction, for one of the same length. -/
theorem Reads.set_opcode {op' : Opcode} (h : t.Reads ip op first second)
    (hsize : op'.size = op.size) :
    Reads (t.setIfInBounds ip op'.byte) ip op' first second := by
  have hfits := h.fits
  have hpos := op.size_pos
  refine ⟨?_, by rw [Array.size_setIfInBounds]; omega, fun h₂ => h.noFirst (by omega),
    fun h₃ => h.noSecond (by omega), fun h₂ => ?_, fun h₃ => ?_⟩
  · exact opcode?_set_self op' (by omega)
  · exact (byteAt_set_of_ne (by omega)).trans (h.first (by omega))
  · exact (byteAt_set_of_ne (by omega)).trans (h.second (by omega))

/-- Writing over the first operand. -/
theorem Reads.set_first (h : t.Reads ip op first second) (hsize : 2 ≤ op.size) (b : UInt8) :
    Reads (t.setIfInBounds (ip + 1) b) ip op b second := by
  have hfits := h.fits
  refine ⟨?_, by rwa [Array.size_setIfInBounds], fun h₂ => by omega, h.noSecond, fun _ => ?_,
    fun h₃ => ?_⟩
  · exact (opcode?_set_of_ne (by omega)).trans h.opcode
  · exact byteAt_set_self (by omega)
  · exact (byteAt_set_of_ne (by omega)).trans (h.second h₃)

/-- Writing over the second operand. -/
theorem Reads.set_second (h : t.Reads ip op first second) (hsize : op.size = 3) (b : UInt8) :
    Reads (t.setIfInBounds (ip + 2) b) ip op first b := by
  have hfits := h.fits
  refine ⟨?_, by rwa [Array.size_setIfInBounds], h.noFirst, fun h₃ => by omega, fun h₂ => ?_,
    fun _ => ?_⟩
  · exact (opcode?_set_of_ne (by omega)).trans h.opcode
  · exact (byteAt_set_of_ne (by omega)).trans (h.first h₂)
  · exact byteAt_set_self (by omega)

/-- The other instructions are as they were. -/
theorem DiffersAt.reads (h : t.DiffersAt t' ip op) (ho : t.opcode? ip = some op)
    (hip : ip ∈ t.starts) (hi : i ∈ t.starts) (hne : i ≠ ip) {op' : Opcode}
    (hr : t.Reads i op' first second) : t'.Reads i op' first second := by
  have hpos := op'.size_pos
  have hdisjoint : i + op'.size ≤ ip ∨ ip + op.size ≤ i := by
    rcases Nat.lt_or_gt_of_ne hne with hlt | hgt
    · exact .inl (apart hi hip hlt hr.opcode)
    · exact .inr (apart hip hi hgt ho)
  refine ⟨?_, h.size ▸ hr.fits, hr.noFirst, hr.noSecond, fun h₂ => ?_, fun h₃ => ?_⟩
  · rw [← hr.opcode, opcode?, opcode?, h.elsewhere i (by omega)]
  · rw [← hr.first h₂, h.byteAt (by omega)]
  · rw [← hr.second h₃, h.byteAt (by omega)]

/-- Writing over one instruction with another one of its length keeps the starts. -/
theorem DiffersAt.starts (h : t.DiffersAt t' ip op) (ho : t.opcode? ip = some op)
    (hip : ip ∈ t.starts) (ht : t.Splits) {op' : Opcode} (ho' : t'.opcode? ip = some op')
    (hsize : op'.size = op.size) : t'.starts = t.starts := by
  refine starts_congr h.size fun i hi => ?_
  by_cases hne : i = ip
  · rw [hne, ho, ho', Option.map_some, Option.map_some, hsize]
  · obtain ⟨op'', first, second, hr⟩ := ht.reads hi
    rw [(h.reads ho hip hi hne hr).opcode, hr.opcode]

end Parley.Tape
