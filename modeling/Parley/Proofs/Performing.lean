import Mathlib.Data.Finset.Card
import Mathlib.Logic.Relation
import Mathlib.Order.WellFounded
import Parley.Proofs.Printing

/-!
# Messages that perform each other

A message performs another one if it finds a primitive that does so (`World.Performs`). The other
one may perform a third, and no activation starts meanwhile. What a message can come to perform is
made of its own arguments and of the elements of arrays (`Performing.kin`), so there are finitely
many such messages, and they perform each other for ever exactly if one of them comes back
(`World.Unending`).

Programs can bring this about: an array that has `#perform:withArguments:` and itself as elements is
enough. All other messages come, within a bounded number of steps, to one that performs nothing.

* `Performing.isUnending_iff`: what is told in advance;
* `World.unending_iff`: only a message that comes back is performed for ever;
* `Machine.performs_iff`: a machine comes to a message that performs nothing, or hangs.
-/

namespace Parley

open Relation

/-- A message performs another one. -/
inductive World.Performs (w : World) : Message → Message → Prop
  | listed {p : Primitive} {selector s : Selector} {receiver name : Value} {rest : List Value} :
      w.lookup receiver selector = some (.primitive p) → p.builtin = .perform →
        p.selector.arity = rest.length + 1 → name.chars? = some s → s.arity = rest.length →
          Performs w ⟨selector, receiver :: name :: rest⟩ ⟨s, receiver :: rest⟩
  | spread {p : Primitive} {selector s : Selector} {receiver name : Value} {a : ArrayRef}
      {rest : List Value} :
      w.lookup receiver selector = some (.primitive p) → p.builtin = .performWithArguments →
        p.selector.arity = rest.length + 2 → name.chars? = some s →
          s.arity = (w.heap.array a).toList.length →
            Performs w ⟨selector, receiver :: name :: .array a :: rest⟩
              ⟨s, receiver :: (w.heap.array a).toList⟩

/-- Messages perform each other for ever from a message on. -/
def World.Unending (w : World) (m : Message) : Prop :=
  ∃ chain : Nat → Message, chain 0 = m ∧ ∀ n, w.Performs (chain n) (chain (n + 1))

/-- A message performs another one, that one a third, and so on up to one that performs none. -/
inductive World.Ends (w : World) : Nat → Message → Message → Prop
  | here {m : Message} : (∀ m', ¬w.Performs m m') → Ends w 0 m m
  | further {n : Nat} {m m' last : Message} :
      w.Performs m m' → Ends w n m' last → Ends w (n + 1) m last

variable {w : World} {m m' last : Message} {n : Nat}

namespace Performing

/-! ### What a message performs -/

theorem toOption_eq_some {r : Except Fault Message} : r.toOption = some m ↔ r = .ok m := by
  cases r <;> simp [Except.toOption]

theorem message_eq_ok {s : Selector} {receiver : Value} {arguments : List Value} :
    message s receiver arguments = .ok m ↔
      s.arity = arguments.length ∧ ⟨s, receiver :: arguments⟩ = m := by
  rw [message]
  split <;> simp_all

theorem listed_eq_ok {arguments : List Value} : listed arguments = .ok m ↔
    ∃ receiver name rest, ∃ s : Selector, arguments = receiver :: name :: rest ∧ name.chars? =
      some s ∧
      s.arity = rest.length ∧ ⟨s, receiver :: rest⟩ = m := by
  rw [listed, nameArgument]
  rcases arguments with _ | ⟨receiver, _ | ⟨name, rest⟩⟩
  · simp [argument, Value.chars?]
  · simp [argument, Value.chars?]
  · have hargument : argument (receiver :: name :: rest) 1 = name := rfl
    rw [hargument]
    cases hname : name.chars? with
    | none => simp [hname]
    | some s => simp [hname, message_eq_ok, argument]

theorem spread_eq_ok {arguments : List Value} : spread arguments w = .ok m ↔
    ∃ receiver name a rest, ∃ s : Selector, arguments = receiver :: name :: .array a :: rest ∧
      name.chars? = some s ∧ s.arity = (w.heap.array a).toList.length ∧
        ⟨s, receiver :: (w.heap.array a).toList⟩ = m := by
  rw [spread, nameArgument]
  rcases arguments with _ | ⟨receiver, _ | ⟨name, rest⟩⟩
  · simp [argument, Value.chars?]
  · simp [argument, Value.chars?]
  · have hargument : argument (receiver :: name :: rest) 1 = name := rfl
    rw [hargument]
    cases hname : name.chars? with
    | none => simp [hname]
    | some s =>
      cases rest with
      | nil => simp [argument]
      | cons v rest =>
        have hargument : argument (receiver :: name :: v :: rest) 2 = v := rfl
        simp only [hargument]
        cases v with
        | array a => simp [hname, message_eq_ok, argument]
        | _ => simp

theorem next?_eq_some : next? w m = some m' ↔ w.Performs m m' := by
  constructor
  · intro h
    obtain ⟨selector, arguments⟩ := m
    simp only [next?] at h
    split at h
    · rename_i p hp
      split at h
      · rename_i hlength
        split at h
        · rename_i hbuiltin
          obtain ⟨receiver, name, rest, s, rfl, hname, harity, rfl⟩ :=
            listed_eq_ok.1 (toOption_eq_some.1 h)
          exact .listed hp hbuiltin (by simpa using hlength.symm) hname harity
        · rename_i hbuiltin
          obtain ⟨receiver, name, a, rest, s, rfl, hname, harity, rfl⟩ :=
            spread_eq_ok.1 (toOption_eq_some.1 h)
          exact .spread hp hbuiltin (by simpa using hlength.symm) hname harity
        · cases h
      · cases h
    · cases h
  · intro h
    cases h with
    | @listed p selector s receiver name rest hp hbuiltin hlength hname harity =>
      have hlisted : listed (receiver :: name :: rest) = .ok ⟨s, receiver :: rest⟩ :=
        listed_eq_ok.2 ⟨receiver, name, rest, s, rfl, hname, harity, rfl⟩
      have hlength' : (receiver :: name :: rest).length = p.selector.arity + 1 := by simp [hlength]
      simp only [next?, argument, List.getD_cons_zero, hp, if_pos hlength', hbuiltin, hlisted]
      rfl
    | @spread p selector s receiver name a rest hp hbuiltin hlength hname harity =>
      have hspread : spread (receiver :: name :: .array a :: rest) w =
          .ok ⟨s, receiver :: (w.heap.array a).toList⟩ :=
        spread_eq_ok.2 ⟨receiver, name, a, rest, s, rfl, hname, harity, rfl⟩
      have hlength' : (receiver :: name :: .array a :: rest).length = p.selector.arity + 1 := by
        simp [hlength]
      simp only [next?, argument, List.getD_cons_zero, hp, if_pos hlength', hbuiltin, hspread]
      rfl

/-! ### What can come to be performed -/

/-- The elements of an array that stands first. -/
def elements (w : World) : List Value → List Value
  | .array a :: _ => (w.heap.array a).toList
  | _ => []

/-- The messages that arguments make: the first one is the name, and the arguments are those that
    follow, or the elements of the array that comes next. -/
def offspring (w : World) (receiver : Value) : List Value → List Message
  | [] => []
  | name :: rest => name.chars?.toList.flatMap fun s =>
      [⟨s, receiver :: rest⟩, ⟨s, receiver :: elements w rest⟩]

/-- The lists of values that messages are made of from a message on. -/
def sources (w : World) (m : Message) : List (List Value) :=
  m.arguments.tail :: w.heap.arrays.toList.map Array.toList

/-- A message, and those that can come to be performed from it on. -/
def kin (w : World) (m : Message) : List Message :=
  m :: (sources w m).flatMap fun l => l.tails.flatMap (offspring w (argument m.arguments 0))

theorem length_offspring_le (receiver : Value) (l : List Value) :
    (offspring w receiver l).length ≤ 2 := by
  cases l with
  | nil => exact Nat.zero_le 2
  | cons name rest =>
    rw [offspring]
    cases name.chars? <;> simp

theorem length_tails_le (receiver : Value) (l : List Value) :
    (l.tails.flatMap (offspring w receiver)).length ≤ 2 * l.length := by
  induction l with
  | nil => simp [offspring]
  | cons v l ih =>
    have hone := length_offspring_le (w := w) receiver (v :: l)
    rw [List.tails_cons, List.flatMap_cons, List.length_append, List.length_cons]
    omega

theorem length_kin_le (w : World) (m : Message) : (kin w m).length ≤ patience w m := by
  have hflat : ∀ ls : List (List Value), (ls.flatMap fun l =>
      l.tails.flatMap (offspring w (argument m.arguments 0))).length ≤
        2 * (ls.map List.length).sum := by
    intro ls
    induction ls with
    | nil => simp
    | cons l ls ih =>
      have hone := length_tails_le (w := w) (argument m.arguments 0) l
      rw [List.flatMap_cons, List.length_append, List.map_cons, List.sum_cons]
      omega
  have hsum : ((sources w m).map List.length).sum =
      m.arguments.tail.length + w.heap.arrays.foldl (fun n a => n + a.size) 0 := by
    rw [sources, List.map_cons, List.sum_cons, List.map_map, ← Array.foldl_toList,
      List.sum_eq_foldl, List.foldl_map]
    rfl
  have htail : m.arguments.tail.length ≤ m.arguments.length := by simp
  have hle := hflat (sources w m)
  rw [kin, List.length_cons, patience]
  omega

/-- A message is made of what another one may be made of. -/
def Stems (w : World) (m x : Message) : Prop :=
  ∃ rest, x.arguments = argument m.arguments 0 :: rest ∧ ∃ l ∈ sources w m, rest <:+ l

theorem Stems.performs {x y : Message} (h : Stems w m x) (hy : w.Performs x y) :
    Stems w m y ∧ y ∈ kin w m := by
  obtain ⟨rest, hx, l, hl, hsuffix⟩ := h
  have hkin : ∀ {z : Message}, z ∈ offspring w (argument m.arguments 0) rest → z ∈ kin w m :=
    fun hz => List.mem_cons_of_mem _ (List.mem_flatMap.2
      ⟨l, hl, List.mem_flatMap.2 ⟨rest, (List.mem_tails _ _).2 hsuffix, hz⟩⟩)
  cases hy with
  | @listed p selector s receiver name rest' _ _ _ hname =>
    obtain ⟨rfl, rfl⟩ := List.cons.inj hx
    refine ⟨⟨rest', rfl, l, hl, (List.suffix_cons _ _).trans hsuffix⟩, hkin ?_⟩
    simp [offspring, hname]
  | @spread p selector s receiver name a rest' _ _ _ hname =>
    obtain ⟨rfl, rfl⟩ := List.cons.inj hx
    refine ⟨⟨_, rfl, ?_⟩, hkin ?_⟩
    · by_cases hlt : a < w.heap.arrays.size
      · refine ⟨_, List.mem_cons_of_mem _ (List.mem_map_of_mem ?_), List.suffix_rfl⟩
        rw [Heap.array, Array.getD_eq_getD_getElem?, Array.getElem?_eq_getElem hlt]
        exact Array.mem_toList_iff.2 (Array.getElem_mem hlt)
      · have hempty : w.heap.array a = #[] := by
          rw [Heap.array, Array.getD_eq_getD_getElem?,
            Array.getElem?_eq_none (Nat.le_of_not_lt hlt)]
          rfl
        rw [hempty]
        exact ⟨l, hl, List.nil_suffix⟩
    · simp [offspring, hname, elements]

/-! ### For ever -/

/-- Where there is always something else to perform, messages perform each other for ever. -/
theorem unending_of {P : Message → Prop} (hm : P m)
    (h : ∀ x, P x → ∃ y, w.Performs x y ∧ P y) : w.Unending m := by
  suffices ¬Acc (fun y x => w.Performs x y) m from not_acc_iff_exists_descending_chain.1 this
  intro hacc
  induction hacc with
  | intro x _ ih =>
    obtain ⟨y, hy, hPy⟩ := h x hm
    exact ih y hy hPy

/-- A message that comes back is performed for ever. -/
theorem unending_of_ring {x : Message} (hx : ReflTransGen w.Performs m x)
    (hring : TransGen w.Performs x x) : w.Unending m := by
  refine unending_of (P := fun y => TransGen w.Performs y x) (.trans_right hx hring)
    fun y hy => ?_
  obtain ⟨z, hz, hback⟩ := TransGen.head'_iff.1 hy
  exact ⟨z, hz, .trans_right hback hring⟩

theorem next_of_unending (h : w.Unending m) : ∃ m', w.Performs m m' ∧ w.Unending m' := by
  obtain ⟨chain, rfl, hchain⟩ := h
  exact ⟨chain 1, hchain 0, fun n => chain (n + 1), rfl, fun n => hchain (n + 1)⟩

theorem goesOn_of_unending (h : w.Unending m) (n : Nat) : goesOn w n m = true := by
  induction n generalizing m with
  | zero => rfl
  | succ n ih =>
    obtain ⟨m', hm', hunending⟩ := next_of_unending h
    rw [goesOn, next?_eq_some.2 hm']
    exact ih hunending

section

open Classical in
/-- The kin of a message that can come to be performed from another one on. -/
noncomputable def ahead (w : World) (m x : Message) : Finset Message :=
  (kin w m).toFinset.filter (ReflTransGen w.Performs x)

variable {x y : Message}

theorem mem_ahead : y ∈ ahead w m x ↔ y ∈ kin w m ∧ ReflTransGen w.Performs x y := by
  classical
  rw [ahead, Finset.mem_filter, List.mem_toFinset]

theorem card_ahead_le : (ahead w m x).card ≤ patience w m := by
  classical
  calc (ahead w m x).card ≤ (kin w m).toFinset.card := Finset.card_filter_le _ _
    _ ≤ (kin w m).length := List.toFinset_card_le _
    _ ≤ patience w m := length_kin_le w m

/-- A message that does not come back leaves fewer for the one that it performs. -/
theorem card_ahead_lt (hx : x ∈ kin w m) (hring : ¬TransGen w.Performs x x)
    (hy : w.Performs x y) : (ahead w m y).card < (ahead w m x).card := by
  refine Finset.card_lt_card ((Finset.ssubset_iff_of_subset fun z hz => ?_).2
    ⟨x, ?_, fun hback => ?_⟩)
  · exact mem_ahead.2 ⟨(mem_ahead.1 hz).1, .head hy (mem_ahead.1 hz).2⟩
  · exact mem_ahead.2 ⟨hx, .refl⟩
  · exact hring (.head' hy (mem_ahead.1 hback).2)

/-- If nothing comes back, there is an end to it, with fewer messages on the way than there are. -/
theorem ends_of_no_ring {c : Nat} (hx : x ∈ kin w m) (hstems : Stems w m x)
    (hring : ∀ y, ReflTransGen w.Performs x y → ¬TransGen w.Performs y y)
    (hc : (ahead w m x).card ≤ c) : ∃ n < c, ∃ last, w.Ends n x last := by
  induction c generalizing x with
  | zero =>
    have hmem : x ∈ ahead w m x := mem_ahead.2 ⟨hx, .refl⟩
    rw [Finset.card_eq_zero.1 (Nat.le_zero.1 hc)] at hmem
    cases hmem
  | succ c ih =>
    by_cases hnext : ∃ y, w.Performs x y
    · obtain ⟨y, hy⟩ := hnext
      obtain ⟨hstems', hy'⟩ := hstems.performs hy
      have hlt := card_ahead_lt hx (hring x .refl) hy
      obtain ⟨n, hn, last, hends⟩ := ih hy' hstems' (fun z hz => hring z (.head hy hz)) (by omega)
      exact ⟨n + 1, by omega, last, .further hy hends⟩
    · exact ⟨0, by omega, x, .here (not_exists.1 hnext)⟩

end

end Performing

namespace World

open Performing

/-- From every message on there is an end to it, or one of the messages comes back. -/
theorem ends_or_ring (w : World) (m : Message) : (∃ n < patience w m, ∃ last, w.Ends n m last) ∨
    ∃ x, ReflTransGen w.Performs m x ∧ TransGen w.Performs x x := by
  by_cases hring : ∃ x, ReflTransGen w.Performs m x ∧ TransGen w.Performs x x
  · exact .inr hring
  · push Not at hring
    obtain ⟨selector, arguments⟩ := m
    cases arguments with
    | nil => exact .inl ⟨0, Nat.succ_pos _, _, .here (by rintro _ ⟨⟩)⟩
    | cons receiver rest =>
      obtain ⟨n, hn, last, hends⟩ := ends_of_no_ring (List.mem_cons_self ..)
        ⟨rest, rfl, rest, List.mem_cons_self .., List.suffix_rfl⟩ hring card_ahead_le
      exact .inl ⟨n, hn, last, hends⟩

theorem Ends.goesOn (h : w.Ends n m last) {i : Nat} (hi : n < i) : goesOn w i m = false := by
  induction h generalizing i with
  | here hnone =>
    obtain ⟨i, rfl⟩ := Nat.exists_eq_add_one_of_ne_zero (Nat.ne_zero_of_lt hi)
    rw [Performing.goesOn, Option.eq_none_iff_forall_ne_some.2 fun m' hm' =>
      hnone m' (next?_eq_some.1 hm')]
  | further hm _ ih =>
    obtain ⟨i, rfl⟩ := Nat.exists_eq_add_one_of_ne_zero (Nat.ne_zero_of_lt hi)
    rw [Performing.goesOn, next?_eq_some.2 hm]
    exact ih (Nat.lt_of_succ_lt_succ hi)

theorem Ends.not_unending (h : w.Ends n m last) : ¬w.Unending m := fun hunending => by
  have hno := h.goesOn (Nat.lt_succ_self n)
  rw [goesOn_of_unending hunending] at hno
  cases hno

/-- Messages are performed for ever if and only if one of them comes back. -/
theorem unending_iff :
    w.Unending m ↔ ∃ x, ReflTransGen w.Performs m x ∧ TransGen w.Performs x x := by
  constructor
  · intro h
    refine (ends_or_ring w m).resolve_left ?_
    rintro ⟨n, -, last, hends⟩
    exact hends.not_unending h
  · rintro ⟨x, hx, hring⟩
    exact unending_of_ring hx hring

/-- What is told in advance. -/
theorem isUnending_iff : isUnending w m = true ↔ w.Unending m := by
  rw [isUnending]
  constructor
  · intro h
    split at h
    · rename_i m' hm'
      refine unending_iff.2 ?_
      rcases ends_or_ring w m' with ⟨n, hn, last, hends⟩ | ⟨x, hx, hring⟩
      · rw [hends.goesOn hn] at h
        cases h
      · exact ⟨x, .head (next?_eq_some.1 hm') hx, hring⟩
    · cases h
  · intro h
    obtain ⟨m', hm', hunending⟩ := next_of_unending h
    rw [next?_eq_some.2 hm']
    exact goesOn_of_unending hunending _

end World

/-! ### Machines -/

namespace Machine

/-- A message that performs another one comes to the job that is made of that one. -/
theorem steps_performs (h : w.Performs m m') (k : List Pending) :
    step^[2] ⟨w, .send m.selector m.arguments, k⟩ = ⟨w, Performing.job (.ok m') w, k⟩ := by
  rw [Function.iterate_succ_apply]
  show step ⟨w, send m.selector m.arguments w, k⟩ = _
  cases h with
  | @listed p selector s receiver name rest hp hbuiltin hlength hname harity =>
    have hsend : send selector (receiver :: name :: rest) w =
        .invoke (.primitive p) (receiver :: name :: rest) := by
      simp only [send, argument, List.getD_cons_zero, hp]
    have hlisted : Performing.listed (receiver :: name :: rest) = .ok ⟨s, receiver :: rest⟩ :=
      Performing.listed_eq_ok.2 ⟨receiver, name, rest, s, rfl, hname, harity, rfl⟩
    rw [hsend, World.step_performs (by simp [hlength]), hbuiltin, ← hlisted]
    rfl
  | @spread p selector s receiver name a rest hp hbuiltin hlength hname harity =>
    have hsend : send selector (receiver :: name :: .array a :: rest) w =
        .invoke (.primitive p) (receiver :: name :: .array a :: rest) := by
      simp only [send, argument, List.getD_cons_zero, hp]
    have hspread : Performing.spread (receiver :: name :: .array a :: rest) w =
        .ok ⟨s, receiver :: (w.heap.array a).toList⟩ :=
      Performing.spread_eq_ok.2 ⟨receiver, name, a, rest, s, rfl, hname, harity, rfl⟩
    rw [hsend, World.step_performs (by simp [hlength]), hbuiltin, ← hspread]
    rfl

/-- If there is an end to it, a machine comes to the last message, with two steps for each of the
    others. -/
theorem steps_ends (h : w.Ends n m last) (k : List Pending) :
    step^[2 * n] ⟨w, .send m.selector m.arguments, k⟩ =
      ⟨w, .send last.selector last.arguments, k⟩ := by
  induction h with
  | here => rfl
  | @further n m m' last hm hends ih =>
    have hjob : Performing.job (.ok m') w = .send m'.selector m'.arguments :=
      if_neg (mt World.isUnending_iff.1 hends.not_unending)
    rw [Nat.mul_succ, Function.iterate_add_apply, steps_performs hm, hjob, ih]

/-- A message leads a machine to one that performs nothing, within a bounded number of steps, if
    none of the messages that are performed comes back. Otherwise the machine hangs, and does so for
    ever. Meanwhile no activation starts, and nothing else changes either. -/
theorem performs_iff (w : World) (m : Message) (k : List Pending) :
    (w.Unending m ↔ ∃ x, ReflTransGen w.Performs m x ∧ TransGen w.Performs x x) ∧
    (¬w.Unending m → ∃ n < Performing.patience w m, ∃ last, w.Ends n m last ∧
      step^[2 * n] ⟨w, .send m.selector m.arguments, k⟩ =
        ⟨w, .send last.selector last.arguments, k⟩) ∧
    (w.Unending m → ∀ i, step^[i + 2] ⟨w, .send m.selector m.arguments, k⟩ = ⟨w, .hang, k⟩) := by
  refine ⟨World.unending_iff, fun hno => ?_, fun h i => ?_⟩
  · obtain ⟨n, hn, last, hends⟩ :=
      (w.ends_or_ring m).resolve_right (mt World.unending_iff.2 hno)
    exact ⟨n, hn, last, hends, steps_ends hends k⟩
  · obtain ⟨m', hm', hunending⟩ := Performing.next_of_unending h
    have hjob : Performing.job (.ok m') w = .hang := if_pos (World.isUnending_iff.2 hunending)
    rw [Function.iterate_add_apply, steps_performs hm', hjob, hangs]

/-- In a new machine, too, messages come to perform each other for ever: an array that has the name
    of a message and itself as elements makes a message that performs itself. -/
theorem performs_iff_itself : ∃ m : Machine, ∃ a, m.Reachable ∧
    m.world.heap.array a = #[.symbol "perform:withArguments:", .array a] ∧ ∀ i,
      step^[i + 2] ⟨m.world, .send "perform:withArguments:"
        [.nil, .symbol "perform:withArguments:", .array a], []⟩ = ⟨m.world, .hang, []⟩ := by
  have hlists : ∀ c < 28, World.furnished.classes.lists "at:put:" c = true ∧
      World.furnished.classes.lists "perform:withArguments:" c = true := by decide +kernel
  have hloops : ∀ m ∈ Library.loops, "at:put:" ≠ m.selector ∧
      "perform:withArguments:" ≠ m.selector := by decide
  obtain ⟨m, a, hm, hclasses, harray⟩ :=
    (Reachable.boot .standard .standard .kept false).knots
      (ClassTable.boot_stocks .standard .kept false (fun m hm => (hloops m hm).1)
        fun c hc => (hlists c hc).1)
      [.symbol "perform:withArguments:"] (List.forall_mem_singleton.2 trivial) (i := 2) rfl
  have hstocks := hclasses ▸ ClassTable.boot_stocks .standard .kept false
    (fun m hm => (hloops m hm).2) fun c hc => (hlists c hc).2
  -- The undefined object has the primitive of all objects.
  have hsplit : m.world.classes.ancestors Core.nil = [Core.nil] ++ [Core.object] := by
    rw [ClassTable.ancestors, hm.rooted.library Core.nil (by decide)]
    decide
  obtain ⟨p, hp, hselector, hbuiltin, -⟩ := hstocks.performs hsplit
    (List.forall_mem_singleton.2 (by decide)) (b := .performWithArguments) (by decide)
  have harity : Selector.arity "perform:withArguments:" = 2 := by decide
  let q : Message :=
    ⟨"perform:withArguments:", [.nil, .symbol "perform:withArguments:", .array a]⟩
  have hself : m.world.Performs q q := by
    have hperforms : m.world.Performs q
        ⟨"perform:withArguments:", .nil :: (m.world.heap.array a).toList⟩ :=
      .spread hp hbuiltin (by rw [hselector, harity]; rfl) rfl (by rw [harray, harity]; rfl)
    rwa [harray] at hperforms
  have hunending : m.world.Unending q :=
    (performs_iff m.world q []).1.2 ⟨q, .refl, .single hself⟩
  exact ⟨m, a, hm, harray, (performs_iff m.world q []).2.2 hunending⟩

end Machine

end Parley
