import Parley.Proofs.Drafting
import Parley.Proofs.Rehoming

/-!
# Splicing keeps drafts in order

A block that fits into the scope around it can always be spliced there. While the walk goes over
the block (`Walk.At`), each offset of the block that it has come to has a place in the draft, and
the depth there is the depth in the block above what was on the stack before: so jumps arrive with
the depths that their targets expect, forward as well as back.

* `Draft.Stands.mergeBlock`: the variables of the block get slots;
* `Walk.arrive_yields`, `Walk.place_eq`: what waited for an offset is settled when the walk is
  there;
* `Walk.carry_yields`: an instruction is carried over;
* `Draft.Stands.splice`: splicing leaves one more value on the stack.
-/

namespace Parley

variable {env : List Outline} {O K : Set (Nat × Nat)} {n : Nat}

/-! ### The variables of the block -/

namespace Draft

variable {d : Draft}

/-- Variables that are merged have slots of the same declarations. -/
theorem Stands.mergeAll (vs : List Variable) (h : d.Stands env O K n) :
    Yields (d.mergeAll vs) fun r => r.2.Stands env O K n ∧ r.2.position = d.position ∧
      d.Widens r.2 ∧ List.Forall₂
        (fun v (slot : UInt8) => ∃ w, r.2.locals[slot.toNat]? = some w ∧ w.sameAs v) vs r.1 := by
  induction vs generalizing d with
  | nil => exact .inl ⟨_, rfl, h, rfl, .refl d, .nil⟩
  | cons v rest ih =>
    rw [Draft.mergeAll]
    rcases h.mergeLocal v with ⟨⟨slot, d₁⟩, hr, h₁, hp₁, hw₁, w, hw, hsame⟩ | ⟨e, hr, he⟩
    · rcases ih h₁ with ⟨⟨slots, d₂⟩, hr₂, h₂, hp₂, hw₂, hall⟩ | ⟨e, hr₂, he⟩
      · simp only [hr, hr₂]
        exact .inl ⟨_, rfl, h₂, hp₂.trans hp₁, hw₁.trans hw₂,
          .cons ⟨w, hw₂.locals _ w hw, hsame⟩ hall⟩
      · simp only [hr, hr₂]
        exact .inr ⟨e, rfl, he⟩
    · simp only [hr]
      exact .inr ⟨e, rfl, he⟩

/-- The variables of a block get slots in the frame that it is spliced into. -/
theorem Stands.mergeBlock (h : d.Stands env O K n) (p : Program Code) :
    Yields (d.mergeBlock p) fun r => r.2.Stands env O K n ∧ r.2.position = d.position ∧
      d.Widens r.2 ∧ r.1.Maps p.outline r.2.outline ∧
        ∀ slot ∈ r.1.locals, slot.toNat < r.2.outline.locals := by
  have hlt : ∀ {d : Draft} {slot : UInt8} {w}, d.locals[slot.toNat]? = some w →
      slot.toNat < d.outline.locals := fun hw => (Array.getElem?_eq_some_iff.1 hw).1
  rw [Draft.mergeBlock]
  rcases h.mergeAll (p.arguments.toList.drop 1) with
    ⟨⟨arguments, d₁⟩, hr₁, h₁, hp₁, hw₁, ha⟩ | ⟨e, hr₁, he⟩
  · rcases h₁.mergeAll p.locals.toList with ⟨⟨locals, d₂⟩, hr₂, h₂, hp₂, hw₂, hl⟩ | ⟨e, hr₂, he⟩
    · simp only [hr₁, hr₂]
      have hla := List.Forall₂.length_eq ha
      have hll := List.Forall₂.length_eq hl
      simp only [List.length_drop, Array.length_toList] at hla hll
      refine .inl ⟨_, rfl, h₂, hp₂.trans hp₁, hw₁.trans hw₂, ⟨fun slot hslot => ?_,
        fun slot hne hslot => ?_⟩, fun slot hslot => ?_⟩
      · have hin : slot.toNat < locals.length := hll ▸ hslot
        obtain ⟨w, hw, -⟩ := (List.forall₂_iff_get.1 hl).2 slot.toNat
          (by simpa [Program.outline] using hslot) hin
        exact ⟨locals[slot.toNat], by rw [SlotMap.local?, List.getElem?_eq_getElem hin], hlt hw⟩
      · obtain ⟨k, hk⟩ := Nat.exists_eq_add_one.2 (Nat.pos_of_ne_zero fun hz =>
          hne (UInt8.toNat_inj.1 hz))
        have hin : k < arguments.length := by
          simp only [Program.outline] at hslot
          omega
        obtain ⟨w, hw, -⟩ := (List.forall₂_iff_get.1 ha).2 k (by simp; omega) hin
        refine ⟨arguments[k], ?_, hlt (hw₂.locals _ w hw)⟩
        rw [SlotMap.argument, hk, List.getElem?_cons_succ, List.getElem?_map,
          List.getElem?_eq_getElem hin]
        rfl
      · obtain ⟨i, hi, rfl⟩ := List.getElem_of_mem hslot
        obtain ⟨w, hw, -⟩ := (List.forall₂_iff_get.1 hl).2 i (by simpa [hll] using hi) hi
        exact hlt hw
    · simp only [hr₁, hr₂]
      exact .inr ⟨e, rfl, he⟩
  · simp only [hr₁]
    exact .inr ⟨e, rfl, he⟩

/-- The locals of a block are set to nil. -/
theorem Stands.clearLocals (slots : List UInt8) (h : d.Stands env O K n)
    (hslots : ∀ slot ∈ slots, slot.toNat < d.outline.locals) :
    (d.clearLocals slots).Stands env O K n := by
  rw [Draft.clearLocals]
  induction slots generalizing d with
  | nil => exact h
  | cons slot rest ih =>
    have hslot := hslots slot (List.mem_cons_self ..)
    have hnil : (d.emit .pushNil []).Stands env O K (n + 1) :=
      h.emit rfl rfl trivial (Nat.zero_le n) (fun _ => rfl) (by simp)
    refine ih (hnil.emit rfl rfl ⟨_, rfl, hslot⟩ (Nat.le_add_left 1 n) (fun _ => rfl) (by simp))
      fun s hs => hslots s (List.mem_cons_of_mem _ hs)

theorem clearLocals_variables (d : Draft) (slots : List UInt8) :
    (d.clearLocals slots).arguments = d.arguments ∧ (d.clearLocals slots).locals = d.locals := by
  rw [clearLocals]
  induction slots generalizing d with
  | nil => exact ⟨rfl, rfl⟩
  | cons slot rest ih => exact ih _

end Draft

/-! ### Ascending lists -/

theorem insertAscending_perm (a : Nat × Nat) (l : List (Nat × Nat)) :
    (insertAscending a l).Perm (a :: l) := by
  induction l with
  | nil => exact .refl _
  | cons b rest ih =>
    rw [insertAscending]
    split
    · exact .refl _
    · exact (ih.cons b).trans (.swap a b rest)

theorem insertAscending_pairwise (a : Nat × Nat) {l : List (Nat × Nat)}
    (h : l.Pairwise fun x y => x.1 ≤ y.1) :
    (insertAscending a l).Pairwise fun x y => x.1 ≤ y.1 := by
  induction h with
  | nil => exact List.pairwise_singleton _ _
  | @cons b rest hb hrest ih =>
    rw [insertAscending]
    split
    · refine .cons (fun x hx => ?_) (.cons hb hrest)
      rcases List.mem_cons.1 hx with rfl | hx
      · omega
      · have := hb x hx
        omega
    · refine .cons (fun x hx => ?_) ih
      rcases List.mem_cons.1 ((insertAscending_perm a rest).mem_iff.1 hx) with rfl | hx
      · omega
      · exact hb x hx

/-- What comes last goes to the end. -/
theorem insertAscending_of_lt {a : Nat × Nat} {l : List (Nat × Nat)} (h : ∀ b ∈ l, b.1 < a.1) :
    insertAscending a l = l ++ [a] := by
  induction l with
  | nil => rfl
  | cons b rest ih =>
    have hb := h b (List.mem_cons_self ..)
    rw [insertAscending, if_neg (by omega), ih fun x hx => h x (List.mem_cons_of_mem _ hx)]
    rfl

/-- Inserting what ascends already gives it back. -/
theorem foldl_insertAscending {α : Type} (f : α → Nat × Nat) {l : List α}
    {sofar : List (Nat × Nat)} (h : (sofar ++ l.map f).Pairwise fun x y => x.1 < y.1) :
    l.foldl (fun l a => insertAscending (f a) l) sofar = sofar ++ l.map f := by
  induction l generalizing sofar with
  | nil => simp
  | cons a rest ih =>
    rw [List.map_cons, List.append_cons] at h
    have hlt : ∀ b ∈ sofar, b.1 < (f a).1 := fun b hb => by
      have h' := (List.pairwise_append.1 h).1
      exact (List.pairwise_append.1 h').2.2 b hb (f a) (List.mem_singleton_self _)
    rw [List.foldl_cons, insertAscending_of_lt hlt, ih h, List.append_assoc]
    rfl

theorem foldl_insertAscending_perm {α : Type} (f : α → Nat × Nat) (l : List α)
    (sofar : List (Nat × Nat)) :
    (l.foldl (fun l a => insertAscending (f a) l) sofar).Perm (l.map f ++ sofar) := by
  induction l generalizing sofar with
  | nil => exact .refl _
  | cons a rest ih =>
    exact (ih _).trans (((insertAscending_perm (f a) sofar).append_left _).trans
      List.perm_middle)

theorem foldl_insertAscending_pairwise {α : Type} (f : α → Nat × Nat) (l : List α)
    {sofar : List (Nat × Nat)} (h : sofar.Pairwise fun x y => x.1 ≤ y.1) :
    (l.foldl (fun l a => insertAscending (f a) l) sofar).Pairwise fun x y => x.1 ≤ y.1 := by
  induction l generalizing sofar with
  | nil => exact h
  | cons a rest ih => exact ih (insertAscending_pairwise _ h)

/-! ### Depths of the block -/

/-- The depth at an offset of a block; behind the block that is its value. -/
def Program.height (p : Program Code) (D : Nat → Nat) (ip : Nat) : Nat :=
  if ip = p.tape.size then 1 else D ip

section

variable {p : Program Code} {D : Nat → Nat} {ip pops pushes : Nat} {op : Opcode}
  {first second : UInt8}

theorem Program.height_of_mem (h : ip ∈ p.tape.starts) : p.height D ip = D ip :=
  if_neg (Tape.lt_of_mem_startsFrom h).ne

/-- What the labels of a block say of the depths above others. -/
theorem Program.Suits.height (hs : p.Suits env true ∅ D ip op first second)
    (hip : ip ∈ p.tape.starts) (he : p.tape.effect p.literals ip op = .ok (pops, pushes)) :
    pops ≤ n + p.height D ip ∧ (Tape.fallsThrough op →
      n + p.height D (ip + op.size) = n + p.height D ip - pops + pushes) := by
  obtain ⟨pops', pushes', he', hpops, hfalls⟩ := hs.effect
  obtain ⟨rfl, rfl⟩ : pops' = pops ∧ pushes' = pushes := by simpa using he'.symm.trans he
  rw [Program.height_of_mem hip]
  refine ⟨by omega, fun hf => ?_⟩
  obtain ⟨hreach, hD⟩ := hfalls hf
  rw [Program.height_of_mem hreach.mem_starts, hD]
  omega

end

/-! ### What waits for an offset -/

namespace Walk

variable {D : Nat → Nat} {ip : Nat}

/-- The jumps that wait for their targets, each with the depth there. -/
def opened (n : Nat) (D : Nat → Nat) (forward : List (Nat × Nat)) : Set (Nat × Nat) :=
  {x | ∃ a ∈ forward, x = (a.2, n + D a.1)}

/-- The places of the heads that came, each with the depth there. -/
def known (n : Nat) (D : Nat → Nat) (placed : List (Nat × Nat)) : Set (Nat × Nat) :=
  {x | ∃ a ∈ placed, x = (a.2, n + D a.1)}

theorem opened_cons (n : Nat) (D : Nat → Nat) (a : Nat × Nat) (forward : List (Nat × Nat)) :
    opened n D (a :: forward) = insert (a.2, n + D a.1) (opened n D forward) := by
  ext x
  simp [opened]

theorem opened_perm {forward forward' : List (Nat × Nat)} (h : forward.Perm forward') :
    opened n D forward = opened n D forward' := by
  ext x
  simp [opened, h.mem_iff]

theorem known_cons (n : Nat) (D : Nat → Nat) (a : Nat × Nat) (placed : List (Nat × Nat)) :
    known n D (a :: placed) = insert (a.2, n + D a.1) (known n D placed) := by
  ext x
  simp [known]

/-- The jumps that wait for an offset get there, with the depth that they lead to. -/
theorem arrive_yields {d : Draft} {forward : List (Nat × Nat)}
    (h : d.Stands env (O ∪ opened n D forward) K (n + D ip))
    (hO : ∀ x ∈ O, ∀ a ∈ forward, x.1 ≠ a.2)
    (hjumps : (forward.map (·.2)).Nodup) (hsorted : forward.Pairwise fun x y => x.1 ≤ y.1)
    (hge : ∀ a ∈ forward, ip ≤ a.1) :
    Yields (arrive ip d forward) fun r => r.2.Stands env (O ∪ opened n D r.1) K (n + D ip) ∧
      r.1.Sublist forward ∧ (∀ a ∈ r.1, ip < a.1) ∧ r.2.position = d.position ∧
        r.2.arguments = d.arguments ∧ r.2.locals = d.locals := by
  induction forward generalizing d with
  | nil => exact .inl ⟨_, rfl, h, .refl _, by simp, rfl, rfl, rfl⟩
  | cons a rest ih =>
    obtain ⟨target, jump⟩ := a
    have hip := hge (target, jump) (List.mem_cons_self ..)
    have hnodup := List.nodup_cons.1 hjumps
    have hrest := List.pairwise_cons.1 hsorted
    rw [arrive]
    split
    -- Nothing waits for this offset, since all others wait for later ones.
    · rename_i hlt
      refine .inl ⟨_, rfl, h, .refl _, fun b hb => ?_, rfl, rfl, rfl⟩
      rcases List.mem_cons.1 hb with rfl | hb
      · exact hlt
      · exact hlt.trans_le (hrest.1 b hb)
    · obtain rfl : target = ip := by
        dsimp only at hip
        omega
      rw [if_neg (lt_irrefl _)]
      have hopen : d.Stands env (insert (jump, n + D target) (O ∪ opened n D rest)) K
          (n + D target) := by
        rw [opened_cons, Set.union_insert] at h
        exact h
      have hfresh : ∀ x ∈ O ∪ opened n D rest, x.1 ≠ jump := by
        rintro x (hx | ⟨b, hb, rfl⟩)
        · exact hO x hx _ (List.mem_cons_self ..)
        · rintro rfl
          exact hnodup.1 (List.mem_map.2 ⟨b, hb, rfl⟩)
      rcases hopen.patchHere hfresh with ⟨d₁, hr, h₁, hp₁, ha₁, hl₁⟩ | ⟨e, hr, he⟩
      · simp only [hr]
        rcases ih h₁ (fun x hx a ha => hO x hx a (List.mem_cons_of_mem _ ha)) hnodup.2 hrest.2
            fun a ha => hge a (List.mem_cons_of_mem _ ha) with
          ⟨r, hr₂, h₂, hsub, hgt, hp₂, ha₂, hl₂⟩ | ⟨e, hr₂, he⟩
        · exact .inl ⟨r, hr₂, h₂, hsub.cons _, hgt, hp₂.trans hp₁, ha₂.trans ha₁, hl₂.trans hl₁⟩
        · exact .inr ⟨e, hr₂, he⟩
      · simp only [hr]
        exact .inr ⟨e, rfl, he⟩

/-- The heads at an offset are noted. -/
theorem place_eq (position : Nat) (placed : List (Nat × Nat)) {heads : List Nat}
    (hsorted : heads.Pairwise (· ≤ ·)) (hge : ∀ head ∈ heads, ip ≤ head) :
    ∃ heads' placed', place ip position placed heads = .ok (heads', placed') ∧
      heads'.Sublist heads ∧ (∀ head ∈ heads', ip < head) ∧
      (∀ head ∈ heads, head ∈ heads' ∨ (placed'.lookup head).isSome) ∧
      (∀ head, (placed.lookup head).isSome → (placed'.lookup head).isSome) ∧
      known n D placed' ⊆ insert (position, n + D ip) (known n D placed) := by
  induction heads generalizing placed with
  | nil => exact ⟨[], placed, rfl, .refl _, by simp, by simp, fun _ h => h,
      Set.subset_insert _ _⟩
  | cons head rest ih =>
    have hip := hge head (List.mem_cons_self ..)
    have hrest := List.pairwise_cons.1 hsorted
    rw [place]
    split
    · rename_i hlt
      refine ⟨_, placed, rfl, .refl _, fun b hb => ?_, fun b hb => .inl hb, fun _ h => h,
        Set.subset_insert _ _⟩
      rcases List.mem_cons.1 hb with rfl | hb
      · exact hlt
      · exact hlt.trans_le (hrest.1 b hb)
    · obtain rfl : head = ip := by omega
      rw [if_neg (lt_irrefl _)]
      obtain ⟨heads', placed', hr, hsub, hgt, hcases, hkeep, hknown⟩ :=
        ih ((head, position) :: placed) hrest.2 fun b hb => hge b (List.mem_cons_of_mem _ hb)
      have hhead : (placed'.lookup head).isSome := hkeep head (by simp)
      refine ⟨heads', placed', hr, hsub.cons _, hgt, fun b hb => ?_, fun b hb' => ?_, ?_⟩
      · rcases List.mem_cons.1 hb with rfl | hb
        · exact .inr hhead
        · exact hcases b hb
      · by_cases hb : b = head
        · exact hb ▸ hhead
        · exact hkeep b (by rwa [List.lookup_cons, beq_false_of_ne hb])
      · refine hknown.trans ?_
        rw [known_cons, Set.insert_idem]

/-! ### The walk -/

/-- A block that fits into the scope that a draft is for, where its variables have slots. -/
structure Hosts (into : Draft) (p : Program Code) (m : SlotMap) (o : Outline)
    (env : List Outline) (D : Nat → Nat) : Prop where
  labelled : p.Labelled (o :: env) true ∅ D
  encloses : p.Encloses (o :: env)
  le : o.Le into.outline
  maps : m.Maps p.outline into.outline

/-- A walk that has come to an offset of a block. What still waits does so for instructions from
    `late` on. -/
structure At (w : Walk) (p : Program Code) (D : Nat → Nat) (env : List Outline)
    (O K : Set (Nat × Nat)) (n : Nat) (into : Draft) (ip late : Nat) : Prop where
  stands : w.draft.Stands env (O ∪ opened n D w.forward) (K ∪ known n D w.placed)
    (n + p.height D ip)
  arguments : w.draft.arguments = into.arguments
  locals : w.draft.locals = into.locals
  le : into.position ≤ w.draft.position
  forward : ∀ a ∈ w.forward, a.1 ∈ p.tape.starts ∧ late ≤ a.1 ∧ into.position ≤ a.2
  sorted : w.forward.Pairwise fun x y => x.1 ≤ y.1
  jumps : (w.forward.map (·.2)).Nodup
  heads : ∀ head ∈ w.heads, head ∈ p.tape.starts ∧ late ≤ head
  headsSorted : w.heads.Pairwise (· ≤ ·)
  marks : ∀ mark ∈ p.loops, mark.head ∈ w.heads ∨ (w.placed.lookup mark.head).isSome
  backward : w.backward = (p.tape.startsFrom ip).filterMap p.tape.back?

variable {w : Walk} {p : Program Code} {m : SlotMap} {o : Outline} {into : Draft} {op op' : Opcode}
  {first second : UInt8} {late pops pushes : Nat} {operands : List UInt8}

namespace At

theorem outline (h : w.At p D env O K n into ip late) : w.draft.outline = into.outline := by
  rw [Draft.outline, Draft.outline, Program.outline, Program.outline]
  exact congrArg₂ _ (congrArg _ h.arguments) (congrArg _ h.locals)

/-- After an instruction of the block the walk is at the next one, if the draft has the depth that
    is expected there, and the instruction was no jump back. -/
theorem advance {d : Draft} (h : w.At p D env O K n into ip (ip + 1)) (hip : ip ∈ p.tape.starts)
    (hr : p.tape.Reads ip op first second) (hback : op.back? ip first second = none)
    (hd : d.Stands env (O ∪ opened n D w.forward) (K ∪ known n D w.placed)
      (n + p.height D (ip + op.size)))
    (ha : d.arguments = w.draft.arguments) (hl : d.locals = w.draft.locals)
    (hle : w.draft.position ≤ d.position) (next : Nat) :
    At { w with draft := d, next } p D env O K n into (ip + op.size) (ip + op.size) where
  stands := hd
  arguments := ha.trans h.arguments
  locals := hl.trans h.locals
  le := h.le.trans hle
  forward a ha := by
    obtain ⟨hmem, hlt, hjump⟩ := h.forward a ha
    exact ⟨hmem, Tape.apart hip hmem hlt hr.opcode, hjump⟩
  sorted := h.sorted
  jumps := h.jumps
  heads head hh := by
    obtain ⟨hmem, hlt⟩ := h.heads head hh
    exact ⟨hmem, Tape.apart hip hmem hlt hr.opcode⟩
  headsSorted := h.headsSorted
  marks := h.marks
  backward := by
    rw [h.backward, Tape.startsFrom_of_opcode (Tape.lt_of_mem_startsFrom hip) hr.opcode,
      List.filterMap_cons, hr.back?, hback]

/-- An instruction is carried over as one that neither has a literal nor jumps. -/
theorem write (h : w.At p D env O K n into ip (ip + 1))
    (hs : p.Suits (o :: env) true ∅ D ip op first second)
    (hip : ip ∈ p.tape.starts) (hr : p.tape.Reads ip op first second)
    (he : op.effect? = some (pops, pushes)) (he' : op'.effect? = some (pops, pushes))
    (hfalls : Tape.fallsThrough op' → Tape.fallsThrough op)
    (hlength : operands.length + 1 = op'.size)
    (haddr : op'.Addresses (into.outline :: env) (operands.getD 0 0) (operands.getD 1 0))
    (hreturns : op' = .returnLocal → env = []) :
    Yields (w.write op' operands) fun w' =>
      w'.At p D env O K n into (ip + op.size) (ip + op.size) := by
  obtain ⟨hpops, hnext⟩ := hs.height (n := n) hip (Tape.effect_of_effect? he)
  refine .inl ⟨_, rfl, h.advance hip hr ?_ (h.stands.emit he' hlength (h.outline ▸ haddr) hpops
    (fun hf => hnext (hfalls hf)) hreturns) rfl rfl ?_ w.next⟩
  · cases op <;> first | rfl | cases he
  · simp only [Draft.position, Draft.emit_tape, Array.size_append]
    omega

/-- An instruction is carried over with a literal that has its effect. -/
theorem writeLiteral {l l' : Literal Code} (h : w.At p D env O K n into ip (ip + 1))
    (hs : p.Suits (o :: env) true ∅ D ip op first second)
    (hip : ip ∈ p.tape.starts) (hr : p.tape.Reads ip op first second)
    (hl : p.literals[first.toNat]? = some l) (hsuits : Tape.suits op l) (hlike : l.Like l')
    (hblock : ∀ withContext b, op = .pushBlock withContext → l' = .block b →
      b.program.needsContext = withContext ∧ b.Lexical (into.outline :: env) ∧
        ∀ c, .block c ∈ w.draft.literals → c.id = b.id → c = b) (next : Nat) :
    Yields ({ w with next }.writeLiteral op l') fun w' =>
      w'.At p D env O K n into (ip + op.size) (ip + op.size) := by
  have hlit : op.hasLiteral := by cases op <;> first | rfl | cases hsuits
  have hfalls : Tape.fallsThrough op := by cases op <;> first | rfl | cases hlit
  have hsuits' : Tape.suits op l' := by
    cases hlike with
    | same => exact hsuits
    | blocks => cases op <;> exact hsuits
  have heffect : op.literalEffect l' = op.literalEffect l := by
    cases hlike with
    | same => rfl
    | blocks => cases op <;> rfl
  have heffect' := Tape.effect_of_literal hr hl hsuits
  obtain ⟨pops, pushes⟩ := op.literalEffect l
  obtain ⟨hpops, hnext⟩ := hs.height (n := n) hip heffect'
  rw [Walk.writeLiteral]
  rcases h.stands.emitLiteral hsuits' heffect hpops (hnext hfalls) (h.outline ▸ hblock) with
    ⟨d, hd, hstands, hp, ha, hl⟩ | ⟨e, hd, he⟩
  · refine .inl ⟨_, by rw [hd]; rfl, h.advance hip hr ?_ hstands ha hl (by omega) next⟩
    cases op <;> first | rfl | cases hlit
  · exact .inr ⟨e, by rw [hd]; rfl, he⟩

/-- A forward jump is carried over, and waits for its target. -/
theorem jump {j : Jump} {wide : Bool} (h : w.At p D env O K n into ip (ip + 1))
    (hs : p.Suits (o :: env) true ∅ D ip (.jump j wide) first second) (hip : ip ∈ p.tape.starts)
    (hr : p.tape.Reads ip (.jump j wide) first second) (hj : j ≠ .back) :
    At { w with
      draft := (w.draft.emitJump (.jump j wide)).2
      forward := insertAscending (ip + p.tape.distance ip wide, w.draft.position) w.forward }
      p D env O K n into (ip + 3) (ip + 3) := by
  obtain ⟨hpops, hnext⟩ := hs.height (n := n) hip (Tape.effect_jump _ _ _ _ _)
  -- The jump leads to a later instruction, whose depth is the one after the jump.
  obtain ⟨target, htarget, hmem, hD⟩ : ∃ target, ip + p.tape.distance ip wide = target ∧
      target ∈ p.tape.starts ∧ D target = j.landing (D ip) := by
    rcases hs.jump j wide rfl with ⟨-, ho⟩ | ⟨target, ht, hreach, hD⟩
    · cases ho
    · rw [Tape.jumpTarget?, if_neg hj] at ht
      rw [Option.ite_none_right_eq_some, Option.some.injEq] at ht
      exact ⟨target, ht.2, hreach.mem_starts, hD⟩
  have hlater : ip + 3 ≤ target := by
    have hpos : 0 < p.tape.distance ip wide := by
      rcases hs.jump j wide rfl with ⟨-, ho⟩ | ⟨target, ht, -, -⟩
      · cases ho
      · rw [Tape.jumpTarget?, if_neg hj] at ht
        rw [Option.ite_none_right_eq_some] at ht
        exact ht.1
    exact Tape.apart hip hmem (by omega) hr.opcode
  have hlanding : n + D target = j.landing (n + p.height D ip) := by
    rw [hD, Program.height_of_mem hip]
    rw [Program.height_of_mem hip] at hpops
    obtain ⟨pops, pushes, he, hle, -⟩ := hs.effect
    rw [Tape.effect_jump, Except.ok.injEq] at he
    have hle : j.effect.1 ≤ D ip := he ▸ hle
    cases j with
    | always | back => rfl
    | test _ leavesNil => cases leavesNil <;> simp only [Jump.landing, Jump.effect] at hle ⊢; omega
    | greater => simp only [Jump.landing, Jump.effect] at hle ⊢; omega
  have hstands : (w.draft.emitJump (.jump j false)).2.Stands env _ _ (n + p.height D (ip + 3)) :=
    h.stands.emitJump hj hpops fun hf => hnext (by cases j <;> exact hf)
  have hperm := insertAscending_perm (target, w.draft.position) w.forward
  rw [htarget]
  refine ⟨?_, h.arguments, h.locals, ?_, fun a ha => ?_, insertAscending_pairwise _ h.sorted, ?_,
    fun head hh => ?_, h.headsSorted, h.marks, ?_⟩
  · rw [opened_perm hperm, opened_cons, Set.union_insert]
    dsimp only
    rw [hlanding]
    exact hstands
  · refine h.le.trans ?_
    simp [Draft.position, Draft.emitJump, Draft.emit]
    omega
  · rcases List.mem_cons.1 (hperm.mem_iff.1 ha) with rfl | ha
    · exact ⟨hmem, hlater, h.le⟩
    · obtain ⟨ha₁, ha₂, ha₃⟩ := h.forward a ha
      exact ⟨ha₁, Tape.apart hip ha₁ ha₂ hr.opcode, ha₃⟩
  · rw [(hperm.map (fun a : Nat × Nat => a.2)).nodup_iff, List.map_cons, List.nodup_cons]
    refine ⟨fun hin => ?_, h.jumps⟩
    -- A jump that waits was written before.
    obtain ⟨a, ha, hpos⟩ := List.mem_map.1 hin
    have hlt := h.stands.lt_position (x := (a.2, n + D a.1)) (.inr ⟨a, ha, rfl⟩)
    dsimp only at hlt hpos
    omega
  · obtain ⟨hh₁, hh₂⟩ := h.heads head hh
    exact ⟨hh₁, Tape.apart hip hh₁ hh₂ hr.opcode⟩
  · have hback : (Opcode.jump j wide).back? ip first second = none := by
      cases j <;> first | rfl | exact absurd rfl hj
    rw [h.backward, Tape.startsFrom_of_opcode (Tape.lt_of_mem_startsFrom hip) hr.opcode,
      List.filterMap_cons, hr.back?, hback]
    rfl

/-- A jump back is carried over, to where its head is now. -/
theorem back {wide : Bool} (h : w.At p D env O K n into ip (ip + 1))
    (hp : p.Labelled (o :: env) true ∅ D) (hip : ip ∈ p.tape.starts)
    (hr : p.tape.Reads ip (.jump .back wide) first second) :
    Yields (w.carryBack p ip wide) fun w' => w'.At p D env O K n into (ip + 3) (ip + 3) := by
  have hs := hp.suits ip hip _ _ _ hr
  obtain ⟨head, hhead, hD⟩ : ∃ head, ip - p.tape.distance ip wide = head ∧ D head = D ip := by
    rcases hs.jump .back wide rfl with ⟨hj, -⟩ | ⟨target, ht, -, hD⟩
    · exact absurd rfl hj
    · rw [Tape.jumpTarget?, if_pos rfl] at ht
      rw [Option.ite_none_right_eq_some, Option.some.injEq] at ht
      exact ⟨target, ht.2, hD⟩
  have hback : p.tape.back? ip = some (ip, head) := by
    rw [Tape.back?, hr.opcode]
    dsimp only
    rw [hhead]
  have hbackward : w.backward =
      (ip, head) :: (p.tape.startsFrom (ip + 3)).filterMap p.tape.back? := by
    rw [h.backward, Tape.startsFrom_of_opcode (Tape.lt_of_mem_startsFrom hip) hr.opcode,
      List.filterMap_cons, hback]
    rfl
  -- The head has a mark, and has come.
  obtain ⟨position, hposition⟩ : ∃ position, w.placed.lookup head = some position := by
    have hmem : (ip, head) ∈ p.tape.backs := List.mem_filterMap.2 ⟨ip, hip, hback⟩
    rw [← hp.loops] at hmem
    obtain ⟨mark, hmark, heq⟩ := List.mem_map.1 hmem
    cases heq
    rcases h.marks mark hmark with hlate | hcame
    · have := (h.heads _ hlate).2
      omega
    · exact Option.isSome_iff_exists.1 hcame
  have hknown : (position, n + p.height D ip) ∈ K ∪ known n D w.placed := by
    obtain ⟨l₁, l₂, hl, -⟩ := List.lookup_eq_some_iff.1 hposition
    refine .inr ⟨(head, position), hl ▸ List.mem_append_right l₁ (List.mem_cons_self ..), ?_⟩
    rw [Program.height_of_mem hip]
    exact congrArg _ (congrArg _ hD.symm)
  rw [carryBack, hbackward]
  dsimp only
  rw [if_neg (by simp [hhead]), hposition]
  dsimp only
  rcases h.stands.emitBack hknown (n + p.height D (ip + 3)) with
    ⟨d, hd, hstands, hpos, ha, hl⟩ | ⟨e, hd, he⟩
  · rw [hd]
    refine .inl ⟨_, rfl, hstands, ha.trans h.arguments, hl.trans h.locals, ?_, fun a ha => ?_,
      h.sorted, h.jumps, fun head hh => ?_, h.headsSorted, h.marks, rfl⟩
    · exact h.le.trans (by rw [hpos]; omega)
    · obtain ⟨ha₁, ha₂, ha₃⟩ := h.forward a ha
      exact ⟨ha₁, Tape.apart hip ha₁ ha₂ hr.opcode, ha₃⟩
    · obtain ⟨hh₁, hh₂⟩ := h.heads head hh
      exact ⟨hh₁, Tape.apart hip hh₁ hh₂ hr.opcode⟩
  · rw [hd]
    exact .inr ⟨e, rfl, he⟩

end At

/-! ### One instruction -/

/-- A closure of the block that is rehomed is a code that the draft does not have yet. -/
theorem eq_of_id_rehomed {b b' : Code} {next : Nat} (hn : Numbered (w.reach p) w.next)
    (hb : .block b ∈ p.literals) (hr : b.rehomed 1 m w.next = .ok (b', next)) {c : Code}
    (hc : .block c ∈ w.draft.literals) (hid : c.id = b'.id) : c = b' := by
  have hreach : w.reach p ∪ b.parts = w.reach p :=
    Set.union_eq_self_of_subset_right ((Code.parts_subset hb).trans Set.subset_union_left)
  have hnew := ((Code.rehomed_grows 0 hr).union (w.reach p)).numbered (hreach.symm ▸ hn)
  exact hnew.inj c b' (.inl (.inr ⟨_, hc, .self _⟩)) (.inr (.self _)) hid

namespace At

variable {last : Nat} (hh : Hosts into p m o env D) (h : w.At p D env O K n into ip (ip + 1))
  (hip : ip ∈ p.tape.starts) (hr : p.tape.Reads ip op first second)

include hh h hip hr

/-- An access to a variable goes to the slot that the variable has now, or to an outer scope. -/
theorem access {place : Place} (hop : op = .push place ∨ op = .pop place) :
    Yields (w.carry p m last ip op) fun w' =>
      w'.At p D env O K n into (ip + op.size) (ip + op.size) := by
  have hs := hh.labelled.suits ip hip op first second hr
  have hsize : op.size = 3 := by rcases hop with rfl | rfl <;> rfl
  have hfirst : p.tape.byteAt (ip + 1) = first := hr.first (by omega)
  have hsecond : p.tape.byteAt (ip + 2) = second := hr.second hsize.ge
  obtain ⟨-, hout, haway⟩ :=
    hs.addresses.spliced (Outlines.Spliced.innermost p.outline hh.le env) hh.maps hop
  have hlevel : second ≠ 0 → 0 < second.toNat := fun hz =>
    Nat.pos_of_ne_zero fun h => hz (UInt8.toNat_inj.1 h)
  unfold carry
  rw [hfirst, hsecond]
  cases place with
  | temporary =>
    rcases hop with rfl | rfl <;>
    · dsimp only
      split
      · rename_i hz
        rcases haway (by simp [hz]) with ⟨-, s, hms, ha⟩ | ⟨hplace, -⟩
        · rw [hms]
          exact h.write hs hip hr rfl rfl id rfl (hz ▸ ha) (by simp)
        · cases hplace
      · rename_i hz
        exact h.write hs hip hr rfl rfl id rfl (hout (hlevel hz)) (by simp)
  | argument =>
    rcases hop with rfl | rfl
    · dsimp only
      split
      · rename_i hz
        rcases haway (by simp [hz]) with ⟨hplace, -⟩ | ⟨-, s, hms, hpush, -⟩
        · cases hplace
        · rw [hms]
          exact h.write hs hip hr rfl rfl id rfl (hz ▸ hpush rfl) (by simp)
      · rename_i hz
        exact h.write hs hip hr rfl rfl id rfl (hout (hlevel hz)) (by simp)
    · dsimp only
      split
      · rename_i hz
        rcases haway (by simp [hz]) with ⟨hplace, -⟩ | ⟨-, s, hms, -, hpop⟩
        · cases hplace
        · rw [hms]
          exact h.write hs hip hr rfl rfl id rfl (hz ▸ hpop rfl) (by simp)
      · rename_i hz
        exact h.write hs hip hr rfl rfl id rfl (hout (hlevel hz)) (by simp)
  | field =>
    rcases hop with rfl | rfl <;>
    · dsimp only
      split
      · rename_i hz
        rcases haway (by simp [hz]) with ⟨hplace, -⟩ | ⟨hplace, -⟩ <;> cases hplace
      · rename_i hz
        exact h.write hs hip hr rfl rfl id rfl (hout (hlevel hz)) (by simp)

/-- A block is pushed, rehomed if it has a context. -/
theorem block {withContext : Bool} (hn : Numbered (w.reach p) w.next)
    (hop : op = .pushBlock withContext) :
    Yields (w.carry p m last ip op) fun w' =>
      w'.At p D env O K n into (ip + op.size) (ip + op.size) := by
  subst hop
  have hs := hh.labelled.suits ip hip _ first second hr
  have hspliced := Outlines.Spliced.innermost p.outline hh.le env
  obtain ⟨b, hl, hb⟩ := Program.blockLiteral_of_reads hh.labelled hip hr
  obtain ⟨hneeds, hlexical⟩ := hh.encloses ip hip withContext first second b hr hl
  have hmem := Array.mem_of_getElem? hl
  unfold carry
  rw [hr.first le_rfl]
  cases withContext with
  | true =>
    have hone : (1 : UInt8).toNat = 0 + 1 := rfl
    obtain ⟨b', next, hrehomed, hlexical', hneeds'⟩ :=
      Code.rehomed_lexical hlexical hneeds hspliced hone hh.maps w.next
    simp only [hb, hrehomed]
    refine h.writeLiteral hs hip hr hl rfl (.blocks b b') (fun w₁ b₁ hop hb₁ => ?_) next
    cases hop
    cases hb₁
    exact ⟨hneeds', hlexical', fun c hc => eq_of_id_rehomed hn hmem hrehomed hc⟩
  | false =>
    have hl' : p.literal? first = some (.block b) := hl
    simp only [hl']
    refine h.writeLiteral hs hip hr hl rfl (.same _) (fun w₁ b₁ hop hb₁ => ?_) w.next
    cases hop
    cases hb₁
    exact ⟨hneeds, hlexical.anywhere (by simp) hneeds (by simp) (by simp),
      fun c hc hid => hn.inj c b (.inr ⟨_, hc, .self _⟩) (.inl ⟨_, hmem, .self _⟩) hid⟩

/-- Any other instruction with a literal is written with the literal. -/
theorem literal (hop : op.hasLiteral) (hne : ∀ withContext, op ≠ .pushBlock withContext) :
    Yields (w.carry p m last ip op) fun w' =>
      w'.At p D env O K n into (ip + op.size) (ip + op.size) := by
  have hs := hh.labelled.suits ip hip op first second hr
  obtain ⟨l, hl, hsuits⟩ := hs.literal hop
  have hl' : p.literal? first = some l := hl
  have hsize : op.size = 2 := by cases op <;> first | rfl | cases hop
  unfold carry
  rw [hr.first hsize.ge]
  cases op with
  | pushConstant | pushGlobal | send _ =>
    simp only [hl']
    exact h.writeLiteral hs hip hr hl hsuits (.same _) (by simp) w.next
  | pushBlock withContext => exact absurd rfl (hne withContext)
  | _ => cases hop

/-- The return at the end of the block is left out. -/
theorem leaveBlock (hop : op = .returnLocal) :
    Yields (w.carry p m (p.tape.starts.getLastD 0) ip op) fun w' =>
      w'.At p D env O K n into (ip + op.size) (ip + op.size) := by
  subst hop
  have hs := hh.labelled.suits ip hip _ first second hr
  rcases hs.returns rfl with hempty | ⟨-, hend, hone⟩
  · cases hempty
  · unfold carry
    dsimp only
    rw [Tape.getLastD_starts hip hr.opcode hend.ge, if_pos rfl]
    refine .inl ⟨w, rfl, h.advance hip hr rfl ?_ rfl rfl le_rfl w.next⟩
    -- Behind the block is its value, where the return would have taken it.
    have hheight : p.height D (ip + Opcode.size .returnLocal) = p.height D ip := by
      rw [Program.height_of_mem hip, hone]
      exact if_pos hend
    rw [hheight]
    exact h.stands

/-- A return out of the method leaves one scope less, and is an ordinary one if it leaves none. -/
theorem leaveMethod (hop : op = .returnNonLocal) :
    Yields (w.carry p m last ip op) fun w' =>
      w'.At p D env O K n into (ip + op.size) (ip + op.size) := by
  subst hop
  have hs := hh.labelled.suits ip hip _ first second hr
  obtain ⟨hz, hlevel⟩ := hs.addresses
  have hnat : (first - 1).toNat = first.toNat - 1 :=
    toNat_sub_one (Nat.pos_of_ne_zero fun h => hz (UInt8.toNat_inj.1 h))
  simp only [List.length_cons] at hlevel
  unfold carry
  rw [hr.first le_rfl]
  dsimp only
  rw [if_neg hz]
  split
  · rename_i hone
    refine h.write hs hip hr rfl rfl id rfl trivial fun _ => ?_
    rw [hone] at hlevel
    exact List.length_eq_zero_iff.1 (by simpa using hlevel)
  · rename_i hone
    refine h.write hs hip hr rfl rfl id rfl ⟨fun h => ?_, ?_⟩ (by simp)
    · rw [List.getD_cons_zero] at h
      rw [h] at hnat
      exact hone (UInt8.toNat_inj.1 (by simp at hnat ⊢; omega))
    · simp only [List.getD_cons_zero, hnat, List.length_cons]
      omega

end At

/-- Every instruction of the block can be carried over. -/
theorem carry_yields (hh : Hosts into p m o env D) (h : w.At p D env O K n into ip (ip + 1))
    (hn : Numbered (w.reach p) w.next) (hip : ip ∈ p.tape.starts)
    (hr : p.tape.Reads ip op first second) :
    Yields (w.carry p m (p.tape.starts.getLastD 0) ip op) fun w' =>
      w'.At p D env O K n into (ip + op.size) (ip + op.size) := by
  have hs := hh.labelled.suits ip hip op first second hr
  cases op with
  | push place => exact h.access hh hip hr (.inl rfl)
  | pop place => exact h.access hh hip hr (.inr rfl)
  | pushBlock withContext => exact h.block hh hip hr hn rfl
  | pushConstant | pushGlobal | send _ => exact h.literal hh hip hr rfl (by simp)
  | returnLocal => exact h.leaveBlock hh hip hr rfl
  | returnNonLocal => exact h.leaveMethod hh hip hr rfl
  | pushSelf | returnSelf =>
    have haddr := hs.addresses
    simp [Opcode.Addresses] at haddr
  | jump j wide =>
    cases j with
    | back => exact h.back hh.labelled hip hr
    | always | test _ _ | greater => exact .inl ⟨_, rfl, h.jump hs hip hr (by simp)⟩
  | quickened _ => cases hs.plain
  | halt | dup | dupSecond | pushNil | pushZero | pushOne | drop | step _ =>
    exact h.write hs hip hr rfl rfl id rfl trivial (by simp)

/-- The walk goes on behind an instruction, after all that waited for it. -/
theorem advance_yields (hh : Hosts into p m o env D) (h : w.At p D env O K n into ip ip)
    (hn : Numbered (w.reach p) w.next) (hO : ∀ x ∈ O, x.1 < into.position)
    (hip : ip ∈ p.tape.starts) (ho : p.tape.opcode? ip = some op) :
    Yields (w.advance p m (p.tape.starts.getLastD 0) ip) fun w' =>
      w'.At p D env O K n into (ip + op.size) (ip + op.size) := by
  obtain ⟨first, second, hr⟩ := hh.labelled.splits.reads_at hip ho
  have hstands := h.stands
  rw [Program.height_of_mem hip] at hstands
  have hfresh : ∀ x ∈ O, ∀ a ∈ w.forward, x.1 ≠ a.2 := fun x hx a ha => by
    have h₁ := hO x hx
    have h₂ := (h.forward a ha).2.2
    omega
  rw [advance]
  rcases arrive_yields hstands hfresh h.jumps h.sorted fun a ha => (h.forward a ha).2.1 with
    ⟨⟨forward, d⟩, hr₁, h₁, hsub, hgt, hp, ha, hl⟩ | ⟨e, hr₁, he⟩
  · obtain ⟨heads, placed, hplace, hsubheads, hgtheads, hcases, hkeep, hknown⟩ :=
      place_eq (n := n) (D := D) d.position w.placed h.headsSorted
        fun head hh => (h.heads head hh).2
    simp only [hr₁, hplace, ho]
    have hat : At { w with draft := d, forward, heads, placed } p D env O K n into ip (ip + 1) :=
      { stands := by
          rw [Program.height_of_mem hip]
          refine h₁.remember.forget ?_
          rintro x (hx | hx)
          · exact .inr (.inl hx)
          · rcases hknown hx with rfl | hx
            · exact .inl rfl
            · exact .inr (.inr hx)
        arguments := ha.trans h.arguments
        locals := hl.trans h.locals
        le := h.le.trans hp.ge
        forward := fun a ha => ⟨(h.forward a (hsub.subset ha)).1, hgt a ha,
          (h.forward a (hsub.subset ha)).2.2⟩
        sorted := h.sorted.sublist hsub
        jumps := h.jumps.sublist (hsub.map _)
        heads := fun head hh => ⟨(h.heads head (hsubheads.subset hh)).1, hgtheads head hh⟩
        headsSorted := h.headsSorted.sublist hsubheads
        marks := fun mark hmark => by
          rcases h.marks mark hmark with hlate | hcame
          · exact hcases _ hlate
          · exact .inr (hkeep _ hcame)
        backward := h.backward }
    refine carry_yields hh hat ?_ hip hr
    rw [reach, arrive_literals hr₁]
    exact hn
  · simp only [hr₁]
    exact .inr ⟨e, rfl, he⟩

/-- The walk gets to the end of the block. -/
theorem carryAll_yields (hh : Hosts into p m o env D) (h : w.At p D env O K n into ip ip)
    (hn : Numbered (w.reach p) w.next) (hO : ∀ x ∈ O, x.1 < into.position)
    (hip : p.tape.Place ip) :
    Yields (w.carryAll p m (p.tape.starts.getLastD 0) (p.tape.startsFrom ip)) fun w' =>
      w'.At p D env O K n into p.tape.size p.tape.size := by
  induction ip using Tape.startsFrom.induct p.tape generalizing w with
  | case1 ip hlt op hop _ ih =>
    have hmem : ip ∈ p.tape.starts := hip.resolve_right hlt.ne
    rw [Tape.startsFrom_of_opcode hlt hop, carryAll]
    rcases advance_yields hh h hn hO hmem hop with ⟨w', hr, h'⟩ | ⟨e, hr, he⟩
    · simp only [hr]
      exact ih h' ((advance_grows 0 hr).numbered hn) (hh.labelled.splits.next hmem hop)
    · simp only [hr]
      exact .inr ⟨e, rfl, he⟩
  | case2 ip hlt hop =>
    obtain ⟨op, hop', -⟩ := hh.labelled.splits ip (hip.resolve_right hlt.ne)
    rw [hop] at hop'
    cases hop'
  | case3 ip hge =>
    obtain rfl : ip = p.tape.size :=
      hip.resolve_left fun hmem => hge (Tape.lt_of_mem_startsFrom hmem)
    rw [Tape.startsFrom, dif_neg hge]
    exact .inl ⟨w, rfl, h⟩

/-- At the end of the block nothing waits any more. -/
theorem finish_eq (h : w.At p D env O K n into p.tape.size p.tape.size) (last : Nat) :
    w.finish p last = .ok w.draft ∧ w.draft.Stands env O K (n + 1) := by
  have hforward : w.forward = [] := List.eq_nil_iff_forall_not_mem.2 fun a ha => by
    obtain ⟨hmem, hge, -⟩ := h.forward a ha
    have := Tape.lt_of_mem_startsFrom hmem
    omega
  have hheads : w.heads = [] := List.eq_nil_iff_forall_not_mem.2 fun head hh => by
    obtain ⟨hmem, hge⟩ := h.heads head hh
    have := Tape.lt_of_mem_startsFrom hmem
    omega
  have hbackward : w.backward = [] := by
    rw [h.backward, Tape.startsFrom, dif_neg (lt_irrefl _), List.filterMap_nil]
  refine ⟨?_, ?_⟩
  · rw [finish, hforward, hheads, hbackward]
    rfl
  · have hstands := h.stands
    have hnone : opened n D [] = ∅ := by simp [opened]
    rw [hforward, hnone, Set.union_empty, Program.height, if_pos rfl] at hstands
    exact hstands.forget Set.subset_union_left

end Walk

/-! ### Splicing -/

theorem Numbered.mono {S T : Set (Literal Code)} {k : Nat} (h : Numbered T k) (hS : S ⊆ T) :
    Numbered S k :=
  ⟨fun c hc => h.lt c (hS hc), fun c d hc hd => h.inj c d (hS hc) (hS hd)⟩

theorem Tape.backs_pairwise (t : Tape) : t.backs.Pairwise fun x y => x.1 < y.1 := by
  refine List.pairwise_filterMap.2 ((startsFrom_pairwise t 0).imp fun {i j} hlt x hx y hy => ?_)
  have hfst : ∀ {k} {z : Nat × Nat}, t.back? k = some z → z.1 = k := by
    intro k z hz
    unfold back? at hz
    split at hz
    · cases hz
      rfl
    · cases hz
  rw [hfst hx, hfst hy]
  exact hlt

/-- The head of a loop is an instruction. -/
theorem Program.Labelled.head_mem {p : Program Code} {D : Nat → Nat}
    (h : p.Labelled env true ∅ D) {mark : LoopMark} (hmark : mark ∈ p.loops) :
    mark.head ∈ p.tape.starts := by
  have hmem : (mark.jump, mark.head) ∈ p.tape.backs := by
    rw [← h.loops]
    exact List.mem_map.2 ⟨mark, hmark, rfl⟩
  obtain ⟨ip, hip, hback⟩ := List.mem_filterMap.1 hmem
  unfold Tape.back? at hback
  split at hback
  · rename_i wide hop
    obtain ⟨first, second, hr⟩ := h.splits.reads_at hip hop
    rcases (h.suits ip hip _ _ _ hr).jump .back wide rfl with ⟨hj, -⟩ | ⟨target, ht, hreach, -⟩
    · exact absurd rfl hj
    · rw [Tape.jumpTarget?, if_pos rfl, Option.ite_none_right_eq_some, Option.some.injEq] at ht
      have hhead : ip - p.tape.distance ip wide = mark.head :=
        congrArg Prod.snd (Option.some.inj hback)
      rw [← hhead, ht.2]
      exact hreach.mem_starts
  · cases hback

/-- A walk that has not begun, with all loops of the block yet to come. -/
def Walk.start (d : Draft) (p : Program Code) (next : Nat) : Walk :=
  { draft := d, next, forward := []
    heads := (p.loops.foldl (fun l mark => insertAscending (mark.head, 0) l) []).map (·.1)
    backward := p.loops.foldl (fun l mark => insertAscending (mark.jump, mark.head) l) []
    placed := [] }

theorem Walk.mem_heads_start {d : Draft} {p : Program Code} {next head : Nat} :
    head ∈ (start d p next).heads ↔ ∃ mark ∈ p.loops, mark.head = head := by
  have hperm := foldl_insertAscending_perm (fun mark : LoopMark => (mark.head, 0)) p.loops []
  simp only [start, List.mem_map, hperm.mem_iff, List.append_nil]
  constructor
  · rintro ⟨_, ⟨mark, hmark, rfl⟩, rfl⟩
    exact ⟨mark, hmark, rfl⟩
  · rintro ⟨mark, hmark, rfl⟩
    exact ⟨_, ⟨mark, hmark, rfl⟩, rfl⟩

/-- Before it begins, a walk is at the first instruction. -/
theorem Walk.start_at {d : Draft} {p : Program Code} {D : Nat → Nat} {o : Outline}
    (h : d.Stands env O K n) (hp : p.Labelled (o :: env) true ∅ D) (hpos : 0 < p.tape.size)
    (next : Nat) : (start d p next).At p D env O K n d 0 0 where
  stands := by
    have hopened : opened n D (start d p next).forward = ∅ := by simp [opened, start]
    have hknown : known n D (start d p next).placed = ∅ := by simp [known, start]
    rw [hopened, hknown, Set.union_empty, Set.union_empty,
      Program.height_of_mem (Tape.mem_startsFrom_self hpos), hp.start]
    exact h
  arguments := rfl
  locals := rfl
  le := le_rfl
  forward a ha := by cases ha
  sorted := .nil
  jumps := .nil
  heads head hhead := by
    obtain ⟨mark, hmark, rfl⟩ := mem_heads_start.1 hhead
    exact ⟨hp.head_mem hmark, Nat.zero_le _⟩
  headsSorted := List.pairwise_map.2 (foldl_insertAscending_pairwise _ _ .nil)
  marks mark hmark := .inl (mem_heads_start.2 ⟨mark, hmark, rfl⟩)
  backward := by
    -- The loops of a program are in the order of their jumps back.
    have hsorted : List.Pairwise (fun x y : Nat × Nat => x.1 < y.1)
        ([] ++ p.loops.map fun mark => (mark.jump, mark.head)) := by
      rw [List.nil_append, hp.loops]
      exact p.tape.backs_pairwise
    exact (foldl_insertAscending _ hsorted).trans hp.loops

/-- Splicing a block that fits in leaves one more value on the stack. -/
theorem Draft.Stands.splice {d : Draft} (h : d.Stands env O K n) {c : Code}
    (hc : c.Lexical (d.outline :: env)) {next : Nat}
    (hn : Numbered (parts d.literals ∪ c.parts) next) :
    Yields (d.splice c next) fun r => r.1.Stands env O K (n + 1) ∧ d.Widens r.1 := by
  obtain ⟨D, hD⟩ := hc.labelled
  unfold Draft.splice
  dsimp only
  rcases h.mergeBlock c.program with ⟨⟨m, d₁⟩, hr₁, h₁, -, hw₁, hm, hslots⟩ | ⟨e, hr₁, he⟩
  · let d₂ := d₁.clearLocals m.locals
    have h₂ : d₂.Stands env O K n := h₁.clearLocals m.locals hslots
    obtain ⟨ha₂, hl₂⟩ := d₁.clearLocals_variables m.locals
    have hw₂ : d.Widens d₂ := hw₁.trans (.of_eq ha₂ hl₂)
    have hh : Walk.Hosts d₂ c.program m d.outline env D := by
      refine ⟨hD, hc.encloses, hw₂.outline, ?_⟩
      rwa [show d₂.outline = d₁.outline by
        simp only [outline, Program.outline, Draft.program, d₂, ha₂, hl₂]]
    have hnumbered : Numbered ((Walk.start d₂ c.program next).reach c.program) next := by
      have hliterals : d₂.literals = d.literals :=
        (clearLocals_literals m.locals).trans (mergeBlock_literals hr₁)
      refine hn.mono ?_
      rw [Walk.reach, Set.union_comm, c.parts_eq]
      exact Set.union_subset_union (congrArg parts hliterals).subset (Set.subset_insert _ _)
    simp only [hr₁]
    rcases Walk.carryAll_yields hh (Walk.start_at h₂ hD hc.nonempty next) hnumbered
        (fun x hx => h₂.lt_position hx) (.inl (Tape.mem_startsFrom_self hc.nonempty)) with
      ⟨w, hr₂, h₃⟩ | ⟨e, hr₂, he⟩
    · obtain ⟨hfinish, hstands⟩ := Walk.finish_eq h₃ (c.program.tape.starts.getLastD 0)
      change Walk.carryAll _ _ _ _ c.program.tape.starts = _ at hr₂
      rw [Walk.start] at hr₂
      simp only [d₂] at hr₂
      simp only [hr₂, hfinish]
      exact .inl ⟨_, rfl, hstands, hw₂.trans (.of_eq h₃.arguments h₃.locals)⟩
    · change Walk.carryAll _ _ _ _ c.program.tape.starts = _ at hr₂
      rw [Walk.start] at hr₂
      simp only [d₂] at hr₂
      simp only [hr₂]
      exact .inr ⟨e, rfl, he⟩
  · simp only [hr₁]
    exact .inr ⟨e, rfl, he⟩

end Parley
