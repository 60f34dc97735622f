import Parley.Library.Builtin

/-!
# Shortcuts

A call site that is bound to a shortcut does not call the primitive that its message finds. It
may, since a shortcut that accepts its operands does what the primitive does (`Shortcut.mirrors`).
So whatever holds of all primitives holds of shortcuts.
-/

namespace Parley

variable {w : World} {arguments : List Value}

/-- The primitive that a shortcut stands for. -/
def Shortcut.builtin : Shortcut → Builtin
  | .arith op => .arith op
  | .compare c => .compare c
  | .identical => .identical
  | .isNil => .isNil
  | .notNil => .notNil
  | .not => .not
  | .blockValue _ => .blockValue
  | .count => .toDo

/-- A shortcut that accepts its operands does what its primitive does. -/
theorem Shortcut.mirrors {op : Shortcut} {r : Job × World}
    (hr : op.apply? arguments w = some r) : op.builtin.apply arguments w = r := by
  unfold Shortcut.apply? at hr
  dsimp only at hr
  cases op with
  | arith op =>
    dsimp only at hr
    show Numbers.arith _ _ _ _ w = r
    rw [Numbers.arith]
    cases hn : Number.integer op (argument arguments 0) (argument arguments 1) with
    | value v =>
      rw [hn] at hr
      exact Option.some.inj hr
    | divisionByZero =>
      rw [hn] at hr
      exact Option.some.inj hr
    | inapplicable =>
      rw [hn] at hr
      cases hr
  | compare c =>
    dsimp only at hr
    have hcompare : ∀ a b : Value,
        (Number.compare? c a b).map (fun b => (Job.answer (.bool b), w)) = some r →
          (Numbers.compare c a b, w) = r := by
      intro a b h
      obtain ⟨truth, htruth, rfl⟩ := Option.map_eq_some_iff.1 h
      simp only [Numbers.compare, htruth]
    split at hr
    · exact hcompare _ _ hr
    · exact hcompare _ _ hr
    · exact hcompare _ _ hr
    · exact hcompare _ _ hr
    · cases hr
  | identical | isNil | notNil => exact Option.some.inj hr
  | not =>
    dsimp only at hr
    split at hr
    · rename_i b hb
      cases hr
      show (Blocks.withTruth _ _, w) = _
      rw [hb]
      rfl
    · cases hr
  | blockValue n =>
    dsimp only at hr
    split at hr
    · rename_i b hb
      split at hr
      · cases hr
        show (Blocks.value _, w) = _
        rw [Blocks.value, hb]
      · cases hr
    · cases hr
  | count =>
    dsimp only at hr
    split at hr
    · rename_i start limit body hstart hlimit hbody
      split at hr
      · cases hr
        show (Numbers.toDo _, w) = _
        simp only [Numbers.toDo, smallInteger, blockArgument, hstart, hlimit, hbody]
        rfl
      · cases hr
    · cases hr

/-- A shortcut leaves the world as it is, but for a report that an integer got big. -/
theorem Shortcut.apply?_world {op : Shortcut} {r : Job × World}
    (hr : op.apply? arguments w = some r) :
    r.2 = w ∨ ∃ op a b, r.2 = Numbers.notePromotion op a b w := by
  rw [← op.mirrors hr]
  cases op with
  | arith op =>
    show (Numbers.arith _ _ _ _ w).2 = w ∨ ∃ op a b, (Numbers.arith _ _ _ _ w).2 = _
    rw [Numbers.arith]
    split
    · exact .inr ⟨_, _, _, rfl⟩
    · exact .inl rfl
    · split <;> exact .inl rfl
  | _ => exact .inl rfl

end Parley
