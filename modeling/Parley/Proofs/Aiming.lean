import Parley.Proofs.Drafting
import Parley.Proofs.Merging

/-!
# Jumps under construction

A draft is written by strokes (`Stroke`), and a stroke that fails leaves it as it is. Some of them
aim a jump: a forward jump leads to itself until it is pointed elsewhere, and can be pointed again
and again, to places behind it at any distance; a jump back leads to its head from the beginning.

Between strokes many jumps wait for their targets, in narrow form or wide. Each of them leads to
where it was aimed last, whatever was written and pointed since (`Draft.Scripted.leads`): a stroke
writes behind the tape, or over the three bytes of one jump.

* `Draft.stroke_cases`: what a stroke does to the tape;
* `Draft.Scripted.points`: when a jump can be pointed, and what that does;
* `Draft.Scripted.opens`, `Draft.Scripted.turnsBack`: what a new jump is;
* `Draft.Scripted.jumps_aimed`: what holds of the jumps of every draft that is written by strokes.
-/

namespace Parley

variable {ip target : Nat} {j : Jump}

/-! ### Where jumps lead -/

/-- The instruction at an offset is a jump of a kind, and it leads to a target. -/
structure Tape.Aims (t : Tape) (ip : Nat) (j : Jump) (target : Nat) : Prop where
  mem : ip ∈ t.starts
  leads : ∃ wide, t.opcode? ip = some (.jump j wide) ∧
    if j = .back then target + t.distance ip wide = ip else ip + t.distance ip wide = target

/-- The instruction at an offset is a forward jump of a kind. -/
def Tape.Forward (t : Tape) (ip : Nat) (j : Jump) : Prop :=
  j ≠ .back ∧ ∃ wide, t.opcode? ip = some (.jump j wide)

namespace Tape

variable {t t' : Tape} {wide : Bool} {first second : UInt8}

theorem Reads.aims (h : t.Reads ip (.jump j wide) first second) (hip : ip ∈ t.starts)
    (hleads : if j = .back then target + jumpDistance wide first second = ip
      else ip + jumpDistance wide first second = target) : t.Aims ip j target :=
  ⟨hip, wide, h.opcode, h.distance ▸ hleads⟩

theorem Forward.unique {j' : Jump} (h : t.Forward ip j) (h' : t.Forward ip j') : j = j' := by
  obtain ⟨-, wide, ho⟩ := h
  obtain ⟨-, wide', ho'⟩ := h'
  cases ho.symm.trans ho'
  rfl

/-- A jump leads where it did on any tape that reads the same there. -/
theorem Aims.congr (h : t.Aims ip j target) (ht : t.Splits) (hip : ip ∈ t'.starts)
    (hsame : ∀ op first second, t.Reads ip op first second → t'.Reads ip op first second) :
    t'.Aims ip j target := by
  obtain ⟨hmem, wide, hop, hleads⟩ := h
  obtain ⟨first, second, hr⟩ := ht.reads_at hmem hop
  exact (hsame _ _ _ hr).aims hip (hr.distance ▸ hleads)

end Tape

/-! ### Strokes -/

/-- An act of writing. -/
inductive Stroke where
  | emit (op : Opcode) (operands : List UInt8)
  | literal (op : Opcode) (l : Literal Code)
  | argument (name : String)
  | temporary (name : String)
  | merge (v : Variable)
  /-- A jump whose target is yet to come. -/
  | jump (j : Jump) (wide : Bool)
  /-- Points the jump at an offset to a target. -/
  | point (ip target : Nat)
  /-- A jump back to a head. -/
  | back (head : Nat)

namespace Draft

variable {d d' : Draft} {aims : List (Nat × Jump × Nat)}

/-- What comes of a stroke. -/
def stroke (d : Draft) : Stroke → Except CompileError Draft
  | .emit op operands => .ok (d.emit op operands)
  | .literal op l => d.emitLiteral op l
  | .argument name => d.addArgument name
  | .temporary name => d.addLocal name
  | .merge v => (d.mergeLocal v).map (·.2)
  | .jump j wide => .ok (d.emitJump (.jump j wide)).2
  | .point ip target => d.patch ip target
  | .back head => d.emitBack head

/-- What whoever writes sees to: instructions have the operands that they take, only instructions
    are pointed, and a head was written before the jump back to it. -/
def Allows (d : Draft) : Stroke → Prop
  | .emit op operands => operands.length + 1 = op.size
  | .literal op _ => op.size = 2
  | .point ip _ => ip ∈ d.tape.starts
  | .back head => head ≤ d.position
  | .argument _ | .temporary _ | .merge _ | .jump _ _ => True

/-- The jump that a stroke aims, if it aims one and does not fail. -/
def aim? (d : Draft) : Stroke → Option (Nat × Jump × Nat)
  | .jump j _ => some (d.position, j, d.position)
  | .point ip target =>
    match d.tape.opcode? ip with
    | some (.jump j _) => some (ip, j, target)
    | _ => none
  | .back head => some (d.position, .back, head)
  | _ => none

/-- A draft that is written by strokes, with the jumps that were aimed meanwhile, the last first. -/
inductive Scripted : Draft → List (Nat × Jump × Nat) → Prop
  | empty (scope : Nat) (depth : UInt8) : Scripted (.empty scope depth) []
  | stroke {d d' : Draft} {aims : List (Nat × Jump × Nat)} (x : Stroke) : Scripted d aims →
      d.Allows x → d.stroke x = .ok d' → Scripted d' ((d.aim? x).toList ++ aims)

/-! ### What a stroke does to the tape -/

/-- A draft that is another one with a jump of three bytes written behind it. -/
structure Appends (d d' : Draft) (j : Jump) (target : Nat) : Prop where
  aims : d'.tape.Aims d.position j target
  starts : d'.tape.starts = d.tape.starts ++ [d.position]
  size : d'.tape.size = d.tape.size + 3
  before : ∀ i < d.position, d'.tape[i]? = d.tape[i]?

/-- A draft that is another one with a jump pointed elsewhere. -/
structure Repoints (d d' : Draft) (ip : Nat) (j : Jump) (target : Nat) : Prop where
  aims : d'.tape.Aims ip j target
  starts : d'.tape.starts = d.tape.starts
  size : d'.tape.size = d.tape.size
  elsewhere : ∀ i, i < ip ∨ ip + 3 ≤ i → d'.tape[i]? = d.tape[i]?
  rest : d' = { d with tape := d'.tape }

/-- Writing a jump behind a draft. -/
theorem appends_of_written {wide : Bool} {operands : List UInt8} (hd : d.tape.Splits)
    (hn : operands.length = 2)
    (htape : d'.tape = d.tape ++ Tape.written (.jump j wide) operands)
    (hleads : if j = .back
      then target + jumpDistance wide (operands.getD 0 0) (operands.getD 1 0) = d.position
      else d.position + jumpDistance wide (operands.getD 0 0) (operands.getD 1 0) = target) :
    d.Appends d' j target := by
  have hlength : operands.length + 1 = (Opcode.jump j wide).size := by rw [hn]; rfl
  have hstarts : d'.tape.starts = d.tape.starts ++ [d.position] := htape ▸ hd.starts_append hlength
  have hreads : d'.tape.Reads d.position (.jump j wide) (operands.getD 0 0) (operands.getD 1 0) :=
    htape ▸ Tape.reads_written d.tape hlength
  refine ⟨hreads.aims (by simp [hstarts]) hleads, hstarts, ?_, fun i hi => ?_⟩
  · rw [htape, Tape.size_written hlength]
    rfl
  · rw [htape, Array.getElem?_append_left hi]

/-- A jump that is opened leads to itself, in narrow form. -/
theorem emitJump_appends (hd : d.tape.Splits) (j : Jump) (wide : Bool) :
    d.Appends (d.emitJump (.jump j wide)).2 j d.position ∧
      (d.emitJump (.jump j wide)).2.tape.opcode? d.position = some (.jump j false) := by
  have htape : (d.emitJump (.jump j wide)).2.tape =
      d.tape ++ Tape.written (.jump j false) [0, 0] := d.emit_tape _ _
  refine ⟨appends_of_written hd rfl htape (by simp [jumpDistance]), ?_⟩
  rw [htape]
  exact Tape.opcode?_written d.tape _ _

/-- A jump back leads to its head. -/
theorem emitBack_appends (hd : d.tape.Splits) {head : Nat} (hle : head ≤ d.position)
    (h : d.emitBack head = .ok d') :
    d.Appends d' .back head ∧ d'.loops = d.loops ++ [⟨head, d.position⟩] := by
  obtain ⟨wide, hlong, hshort, rfl⟩ := emitBack_cases hle h
  refine ⟨appends_of_written hd rfl (d.emit_tape _ _) ?_, rfl⟩
  have hdistance := jumpDistance_distanceBytes hlong hshort
  rw [if_pos rfl, List.getD_cons_zero, List.getD_cons_succ, List.getD_cons_zero, hdistance]
  omega

/-- A forward jump that is pointed leads to the target. -/
theorem patch_repoints (hd : d.tape.Splits) (hip : ip ∈ d.tape.starts)
    (h : d.patch ip target = .ok d') : ∃ j, d.tape.Forward ip j ∧ d.Repoints d' ip j target := by
  obtain ⟨j, narrow, wide, ho, hj, hle, hlong, hshort, rfl⟩ := patch_cases h
  obtain ⟨first, second, hold⟩ := hd.reads_at hip ho
  have hdiffers := d.overwrite_differsAt ip (.jump j wide) (distanceBytes (target - ip))
    (.jump j narrow) rfl
  have hnew := d.overwrite_reads hold.fits (.jump j wide) (distanceBytes (target - ip)) rfl
  have hstarts := hdiffers.starts ho hip hd hnew.opcode rfl
  refine ⟨j, ⟨hj, narrow, ho⟩, hnew.aims (hstarts ▸ hip) ?_, hstarts, hdiffers.size,
    hdiffers.elsewhere, rfl⟩
  rw [if_neg hj, jumpDistance_distanceBytes hlong hshort]
  omega

/-- A forward jump can be pointed to a place behind it. -/
theorem patch_ok (hj : d.tape.Forward ip j) (hle : ip ≤ target) (hlong : target - ip ≤ 65535) :
    ∃ d', d.patch ip target = .ok d' := by
  obtain ⟨hforward, wide, ho⟩ := hj
  simp only [patch, ho, if_neg hforward, if_neg (not_lt.2 hle), if_pos hlong]
  split
  · exact ⟨_, rfl⟩
  · exact ⟨_, rfl⟩

theorem patch_limit (hj : d.tape.Forward ip j) (hfar : 65535 < target - ip) :
    d.patch ip target = .error (.limit ("jump of " ++ (target - ip).repr ++ " bytes")) := by
  obtain ⟨hforward, wide, ho⟩ := hj
  have hle : ¬target < ip := by omega
  have hshort : ¬target - ip ≤ 255 := by omega
  simp only [patch, ho, if_neg hforward, if_neg hle, if_neg hshort, if_neg (not_le.2 hfar)]

/-- What is no forward jump cannot be pointed, and no jump can be pointed to a place in front of
    it. -/
theorem patch_splice (h : target < ip ∨ ¬∃ j, d.tape.Forward ip j) :
    ∃ text, d.patch ip target = .error (.splice text) := by
  rw [patch]
  split
  · rename_i j wide ho
    by_cases hj : j = .back
    · exact ⟨_, if_pos hj⟩
    · have hlt : target < ip := h.resolve_right (not_not.2 ⟨j, hj, wide, ho⟩)
      exact ⟨_, by rw [if_neg hj, if_pos hlt]⟩
  · exact ⟨_, rfl⟩

theorem emitBack_ok {head : Nat} (hle : head ≤ d.position) (hlong : d.position - head ≤ 65535) :
    ∃ d', d.emitBack head = .ok d' := by
  simp only [emitBack, if_pos hle, if_pos hlong]
  exact ⟨_, rfl⟩

theorem emitBack_limit {head : Nat} (hle : head ≤ d.position) (hfar : 65535 < d.position - head) :
    d.emitBack head = .error (.limit ("loop of " ++ (d.position - head).repr ++ " bytes")) := by
  simp only [emitBack, if_pos hle, if_neg (not_le.2 hfar)]

namespace Repoints

variable {i : Nat} {wide : Bool}

/-- All instructions but the jump are as they were. -/
theorem reads (h : d.Repoints d' ip j target) (hip : ip ∈ d.tape.starts)
    (ho : d.tape.opcode? ip = some (.jump j wide)) (hi : i ∈ d.tape.starts) (hne : i ≠ ip)
    {op : Opcode} {first second : UInt8} (hr : d.tape.Reads i op first second) :
    d'.tape.Reads i op first second :=
  Tape.DiffersAt.reads ⟨h.size, h.elsewhere⟩ ho hip hi hne hr

theorem splits (h : d.Repoints d' ip j target) (hd : d.tape.Splits) (hip : ip ∈ d.tape.starts)
    (ho : d.tape.opcode? ip = some (.jump j wide)) : d'.tape.Splits := by
  intro i hi
  rw [h.starts] at hi
  by_cases hne : i = ip
  · subst hne
    obtain ⟨wide', ho', -⟩ := h.aims.leads
    obtain ⟨_, _, hr⟩ := hd.reads_at hip ho
    exact ⟨_, ho', h.size.symm ▸ hr.fits⟩
  · obtain ⟨op, first, second, hr⟩ := hd.reads hi
    have hr' := h.reads hip ho hi hne hr
    exact ⟨op, hr'.opcode, hr'.fits⟩

end Repoints

/-- A stroke leaves the tape as it is, or writes an instruction behind it, or points a jump. -/
theorem stroke_cases {x : Stroke} (hd : d.tape.Splits) (ha : d.Allows x)
    (h : d.stroke x = .ok d') :
    (d'.tape = d.tape ∧ d.aim? x = none) ∨
      (∃ op operands, operands.length + 1 = op.size ∧ d'.tape = d.tape ++ Tape.written op operands ∧
        ∀ a ∈ d.aim? x, a.1 = d.position ∧ d'.tape.Aims a.1 a.2.1 a.2.2) ∨
      ∃ ip j target, d.aim? x = some (ip, j, target) ∧ d.tape.Forward ip j ∧
        ip ∈ d.tape.starts ∧ d.Repoints d' ip j target := by
  cases x with
  | emit op operands =>
    cases h
    refine .inr (.inl ⟨op, operands, ha, d.emit_tape op operands, ?_⟩)
    rintro _ ⟨⟩
  | literal op l =>
    simp only [stroke, emitLiteral] at h
    split at h
    · cases h
    · rename_i index d₁ hadd
      cases h
      have htape : d₁.tape = d.tape := by
        rcases addLiteral_cases hadd with ⟨rfl, -⟩ | ⟨-, -, rfl⟩ <;> rfl
      have hop : op.size = 2 := ha
      refine .inr (.inl ⟨op, [index], by rw [hop]; rfl, htape ▸ d₁.emit_tape op [index], ?_⟩)
      rintro _ ⟨⟩
  | argument name =>
    simp only [stroke, addArgument] at h
    split at h
    · cases h
    · cases h
      exact .inl ⟨rfl, rfl⟩
  | temporary name =>
    obtain ⟨-, rfl⟩ := addLocal_cases h
    exact .inl ⟨rfl, rfl⟩
  | merge v =>
    obtain ⟨⟨slot, d₁⟩, hmerge, rfl⟩ := Except.exists_of_map_eq_ok h
    refine .inl ⟨?_, rfl⟩
    rcases mergeLocal_cases hmerge with ⟨rfl, -⟩ | ⟨-, -, rfl⟩ <;> rfl
  | jump j wide =>
    cases h
    refine .inr (.inl ⟨.jump j false, [0, 0], rfl, d.emit_tape _ _, ?_⟩)
    rintro _ ⟨⟩
    exact ⟨rfl, (emitJump_appends hd j wide).1.aims⟩
  | point ip target =>
    obtain ⟨j, hforward, hrepoints⟩ := patch_repoints hd ha h
    obtain ⟨wide, ho⟩ := hforward.2
    exact .inr (.inr ⟨ip, j, target, by simp only [aim?, ho], hforward, ha, hrepoints⟩)
  | back head =>
    have happends := emitBack_appends hd ha h
    obtain ⟨wide, -, -, rfl⟩ := emitBack_cases ha h
    refine .inr (.inl ⟨.jump .back wide, [_, _], rfl, d.emit_tape _ _, ?_⟩)
    rintro _ ⟨⟩
    exact ⟨rfl, happends.1.aims⟩

/-- What was aimed last at an offset is what a stroke aims there, or else what was aimed before. -/
theorem lookup_aimed {a : Option (Nat × Jump × Nat)}
    (h : (a.toList ++ aims).lookup ip = some (j, target)) :
    a = some (ip, j, target) ∨ (∀ x ∈ a, x.1 ≠ ip) ∧ aims.lookup ip = some (j, target) := by
  cases a with
  | none => exact .inr ⟨nofun, h⟩
  | some a =>
    obtain ⟨ip', j', target'⟩ := a
    rw [Option.toList_some, List.singleton_append, List.lookup_cons] at h
    split at h
    · rename_i heq
      cases h
      rw [beq_iff_eq.1 heq]
      exact .inl rfl
    · rename_i hne
      refine .inr ⟨fun x hx hip => ?_, h⟩
      cases hx
      exact beq_eq_false_iff_ne.1 hne hip.symm

namespace Scripted

/-- The tape always splits into whole instructions, and every jump leads to where it was aimed
    last. -/
theorem exact (h : d.Scripted aims) : d.tape.Splits ∧
    ∀ ip j target, aims.lookup ip = some (j, target) → d.tape.Aims ip j target := by
  induction h with
  | empty => exact ⟨fun ip hip => absurd (Tape.lt_of_mem_startsFrom hip) (Nat.not_lt_zero _), nofun⟩
  | stroke x _ ha hx ih =>
    obtain ⟨hsplits, hleads⟩ := ih
    rcases stroke_cases hsplits ha hx with ⟨htape, haim⟩ | ⟨op, operands, hn, htape, haim⟩ |
      ⟨ip, j, target, haim, ⟨-, wide, ho⟩, hip, hrepoints⟩
    -- The tape is as it was.
    · rw [htape, haim]
      exact ⟨hsplits, hleads⟩
    -- An instruction is written behind the others.
    · refine ⟨htape ▸ hsplits.append hn, fun ip j target hlookup => ?_⟩
      rcases lookup_aimed hlookup with hnew | ⟨-, hold⟩
      · exact (haim _ hnew).2
      · have haims := hleads ip j target hold
        refine haims.congr hsplits ?_ fun _ _ _ hr => htape ▸ hr.append _
        exact htape ▸ hsplits.mem_starts_append hn (.inl haims.mem)
    -- A jump is pointed elsewhere.
    · refine ⟨hrepoints.splits hsplits hip ho, fun ip' j' target' hlookup => ?_⟩
      rcases lookup_aimed hlookup with hnew | ⟨hne, hold⟩
      · rw [haim] at hnew
        cases hnew
        exact hrepoints.aims
      · have haims := hleads ip' j' target' hold
        exact haims.congr hsplits (hrepoints.starts ▸ haims.mem) fun _ _ _ hr =>
          hrepoints.reads hip ho haims.mem (hne _ haim).symm hr

/-- A jump leads to where it was aimed last. -/
theorem leads (h : d.Scripted aims) (haim : aims.lookup ip = some (j, target)) :
    d.tape.Aims ip j target :=
  h.exact.2 ip j target haim

/-- What comes of pointing the instruction at an offset to a target: a forward jump can be pointed
    to every place from itself on that is not too far away. -/
theorem points (h : d.Scripted aims) (hip : ip ∈ d.tape.starts) (target : Nat) :
    (∀ j, d.tape.Forward ip j → ip ≤ target → target - ip ≤ 65535 →
      ∃ d', d.patch ip target = .ok d' ∧ d.Repoints d' ip j target) ∧
    ((∃ text, d.patch ip target = .error (.limit text)) ↔
      65535 < target - ip ∧ ∃ j, d.tape.Forward ip j) ∧
    ((∃ text, d.patch ip target = .error (.splice text)) ↔
      target < ip ∨ ¬∃ j, d.tape.Forward ip j) := by
  refine ⟨fun j hforward hle hlong => ?_, ⟨?_, ?_⟩, ⟨?_, patch_splice⟩⟩
  · obtain ⟨d', hd'⟩ := patch_ok hforward hle hlong
    obtain ⟨j', hforward', hrepoints⟩ := patch_repoints h.exact.1 hip hd'
    exact ⟨d', hd', hforward.unique hforward' ▸ hrepoints⟩
  · rintro ⟨text, herror⟩
    by_contra hno
    by_cases hbad : target < ip ∨ ¬∃ j, d.tape.Forward ip j
    · obtain ⟨_, hsplice⟩ := patch_splice hbad
      cases herror.symm.trans hsplice
    · push Not at hbad
      obtain ⟨hle, j, hforward⟩ := hbad
      have hlong : target - ip ≤ 65535 := by
        by_contra hfar
        exact hno ⟨by omega, j, hforward⟩
      obtain ⟨_, hok⟩ := patch_ok hforward hle hlong
      cases herror.symm.trans hok
  · rintro ⟨hfar, j, hforward⟩
    exact ⟨_, patch_limit hforward hfar⟩
  · rintro ⟨text, herror⟩
    by_contra hno
    push Not at hno
    obtain ⟨hle, j, hforward⟩ := hno
    by_cases hlong : target - ip ≤ 65535
    · obtain ⟨_, hok⟩ := patch_ok hforward hle hlong
      cases herror.symm.trans hok
    · have hlimit := patch_limit hforward (not_le.1 hlong)
      cases herror.symm.trans hlimit

/-- A jump that is opened stands behind the draft, in narrow form. -/
theorem opens (h : d.Scripted aims) (j : Jump) (wide : Bool) :
    (d.emitJump (.jump j wide)).1 = d.position ∧
      d.Appends (d.emitJump (.jump j wide)).2 j d.position :=
  ⟨rfl, (emitJump_appends h.exact.1 j wide).1⟩

/-- A jump back can be made to every head that is not too far away. -/
theorem turnsBack (h : d.Scripted aims) {head : Nat} (hle : head ≤ d.position) :
    (d.position - head ≤ 65535 → ∃ d', d.emitBack head = .ok d' ∧ d.Appends d' .back head) ∧
      ((∃ text, d.emitBack head = .error (.limit text)) ↔ 65535 < d.position - head) := by
  by_cases hlong : d.position - head ≤ 65535
  · obtain ⟨d', hd'⟩ := emitBack_ok hle hlong
    refine ⟨fun _ => ⟨d', hd', (emitBack_appends h.exact.1 hle hd').1⟩, ?_, by omega⟩
    rintro ⟨text, herror⟩
    cases herror.symm.trans hd'
  · exact ⟨fun hshort => absurd hshort hlong,
      fun _ => by omega, fun hfar => ⟨_, emitBack_limit hle hfar⟩⟩

/-- However a draft was written, its jumps lead to where they were aimed last, and this goes on to
    be so: a new jump stands behind the rest and leads where it should, and a jump that is pointed
    keeps its kind and leads to its target, with nothing else changed. Jumps fail by their limit if
    the distance does not fit into two bytes, and only then; only a forward jump can be pointed, and
    only forwards. -/
theorem jumps_aimed (h : d.Scripted aims) :
    (∀ ip j target, aims.lookup ip = some (j, target) → d.tape.Aims ip j target) ∧
    (∀ j wide, (d.emitJump (.jump j wide)).1 = d.position ∧
      d.Appends (d.emitJump (.jump j wide)).2 j d.position) ∧
    (∀ ip ∈ d.tape.starts, ∀ target,
      (∀ j, d.tape.Forward ip j → ip ≤ target → target - ip ≤ 65535 →
        ∃ d', d.patch ip target = .ok d' ∧ d.Repoints d' ip j target) ∧
      ((∃ text, d.patch ip target = .error (.limit text)) ↔
        65535 < target - ip ∧ ∃ j, d.tape.Forward ip j) ∧
      ((∃ text, d.patch ip target = .error (.splice text)) ↔
        target < ip ∨ ¬∃ j, d.tape.Forward ip j)) ∧
    ∀ head ≤ d.position,
      (d.position - head ≤ 65535 → ∃ d', d.emitBack head = .ok d' ∧ d.Appends d' .back head) ∧
      ((∃ text, d.emitBack head = .error (.limit text)) ↔ 65535 < d.position - head) :=
  ⟨fun _ _ _ => h.leads, h.opens, fun _ hip => h.points hip, fun _ => h.turnsBack⟩

/-- A jump that is pointed to a place far behind it and then to one nearby is in narrow form
    again, and leads there. -/
theorem aimed_far_then_near : ∃ d : Draft,
    d.Scripted [(0, .always, 5), (0, .always, 300), (0, .always, 0)] ∧
      d.tape.opcode? 0 = some (.jump .always false) ∧ d.tape.Aims 0 .always 5 := by
  have hempty : Scripted (.empty 0 0) [] := .empty 0 0
  have hopen := hempty.stroke (.jump .always false) trivial rfl
  have hfar := hopen.stroke (.point 0 300) (Tape.mem_startsFrom_self (by decide)) rfl
  have hnear := hfar.stroke (.point 0 5) (Tape.mem_startsFrom_self (by decide)) rfl
  exact ⟨_, hnear, rfl, hnear.jumps_aimed.1 0 .always 5 rfl⟩

end Scripted

end Draft

end Parley
