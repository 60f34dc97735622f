import Mathlib.Data.List.Nodup
import Mathlib.Logic.Relation
import Parley.Proofs.Outward
import Parley.Proofs.UpToDate

/-!
# The shape of dispatch chains

A message does one of four things to the chain that it goes through (`Chain.Turns`): the chain stays
as it is, an entry of an earlier epoch is made anew where it sits, an entry is appended, or the
chain becomes megamorphic. So what a chain holds is as short as the machine allows and no two
entries are for the same receivers (`Chain.Shaped`), and entries stay where they are with their
guards (`Chain.Extends`), whatever the receivers are and whatever happens between two messages
(`Chain.History`).

A message goes through its chain once more if its receiver was outdated, but not a third time
(`Chain.Passes.le_one`).
-/

namespace Parley

variable {w w' : World} {n : Nat}

/-! ### Outdated receivers -/

/-- A value that is no instance, or an instance that was made. -/
def World.Has (w : World) (v : Value) : Prop :=
  ∀ o, v = .object o → o < w.heap.instances.size

/-- Nobody is brought up to date twice in a row. -/
theorem World.isOutdated_migrate {v : Value} (h : w.Has v) : (w.migrate v).isOutdated v =
    false := by
  cases v with
  | object o =>
    have hlt : o < w.heap.instances.size := h o rfl
    have hcurrent : (w.migrate (.object o)).heap.instance_ o =
        (w.heap.current w.classes).instance_ o := w.heap.updateLayout_instance w.classes o
    rcases w.heap.instance_cases w.classes o with ⟨i, -, -, hi⟩ | ⟨hnone, -⟩
    · simp only [isOutdated, hcurrent, hi, Instance.current_id, Instance.current_cls]
      exact decide_eq_false fun hne => hne rfl
    · rw [Array.getElem?_eq_getElem hlt] at hnone
      cases hnone
  | _ => rfl

namespace Chain

variable {c c' : Chain} {arguments : List Value} {g : Guard} {epoch : Nat}

/-! ### Entries -/

/-- The entries; a megamorphic chain has none. -/
def entries (c : Chain) : List Entry :=
  match c.state with
  | .cached entries => entries
  | .megamorphic => []

/-- The guards of the entries, in their order. -/
def guards (c : Chain) : List Guard :=
  c.entries.map (·.guard)

/-- A chain with no more entries than are allowed, no two of them for the same receivers. -/
structure Shaped (n : Nat) (c : Chain) : Prop where
  length_le : c.guards.length ≤ n
  distinct : c.guards.Nodup

/-- What a chain may become: its entries stay where they are, with their guards, until it is
    megamorphic. Then it stays so. -/
structure Extends (c c' : Chain) : Prop where
  selector : c'.selector = c.selector
  guards : c'.isMegamorphic = false → c.isMegamorphic = false ∧ c.guards <+: c'.guards

theorem new_shaped (n : Nat) (s : Selector) : (Chain.new s).Shaped n :=
  ⟨n.zero_le, .nil⟩

/-- No two entries match the same receiver. -/
theorem Shaped.matching (h : c.Shaped n) (g : Guard) :
    c.entries.countP (fun e => e.guard = g) ≤ 1 := by
  have hcount := List.nodup_iff_count_le_one.1 h.distinct g
  rw [guards, List.count, List.countP_map] at hcount
  exact hcount

theorem Extends.refl (c : Chain) : c.Extends c :=
  ⟨rfl, fun h => ⟨h, List.prefix_rfl⟩⟩

theorem Extends.trans {c'' : Chain} (h : c.Extends c') (h' : c'.Extends c'') : c.Extends c'' where
  selector := h'.selector.trans h.selector
  guards hm :=
    have ⟨hm', hp'⟩ := h'.guards hm
    have ⟨hm'', hp⟩ := h.guards hm'
    ⟨hm'', hp.trans hp'⟩

/-! ### What a message does to a chain -/

/-- What a message does to a chain, of which there may be `n` entries: its receiver is known by a
    guard, and asked for in an epoch. -/
inductive Turns (n : Nat) (g : Guard) (epoch : Nat) : Chain → Chain → Prop
  /-- It looks every message up, or has an entry that matches. -/
  | keeps {c : Chain} :
      (c.isMegamorphic ∨ ∃ e ∈ c.entries, e.guard = g ∧ e.epoch = epoch) → Turns n g epoch c c
  /-- The entry for the receiver is of another epoch, and is made anew where it sits. -/
  | refreshes {s : Selector} {entries : List Entry} {slot : Nat} {old new : Entry} :
      entries[slot]? = some old → old.guard = g → old.epoch ≠ epoch → new.guard = g →
      new.epoch = epoch →
        Turns n g epoch ⟨s, .cached entries⟩ ⟨s, .cached (entries.set slot new)⟩
  /-- No entry is for the receiver, and there is room for one. -/
  | grows {s : Selector} {entries : List Entry} {new : Entry} :
      (∀ e ∈ entries, e.guard ≠ g) → entries.length < n → new.guard = g → new.epoch = epoch →
        Turns n g epoch ⟨s, .cached entries⟩ ⟨s, .cached (entries ++ [new])⟩
  /-- No entry is for the receiver, and there is no room. -/
  | collapses {s : Selector} {entries : List Entry} :
      (∀ e ∈ entries, e.guard ≠ g) → n ≤ entries.length →
        Turns n g epoch ⟨s, .cached entries⟩ ⟨s, .megamorphic⟩

namespace Turns

/-- A chain that is not megamorphic has the guards that it had, and at most one more. -/
theorem guards_cases (h : Turns n g epoch c c') :
    c'.isMegamorphic ∨ c'.isMegamorphic = c.isMegamorphic ∧ (c'.guards = c.guards ∨
      c'.guards = c.guards ++ [g] ∧ g ∉ c.guards ∧ c.guards.length < n) := by
  cases h with
  | keeps _ => exact .inr ⟨rfl, .inl rfl⟩
  | @refreshes s es slot old new hslot hold _ hnew _ =>
    -- What is written has the guard of what was there.
    obtain ⟨hlt, rfl⟩ := List.getElem?_eq_some_iff.1 hslot
    refine .inr ⟨rfl, .inl ?_⟩
    show (es.set slot new).map (·.guard) = es.map (·.guard)
    have hlt' : slot < (es.map (·.guard)).length := by rwa [List.length_map]
    have hguard : new.guard = (es.map (·.guard))[slot] := by
      rw [List.getElem_map, hold, hnew]
    rw [List.map_set, hguard, List.set_getElem_self]
  | @grows s es new hnone hroom hnew _ =>
    refine .inr ⟨rfl, .inr ⟨?_, ?_, ?_⟩⟩
    · show (es ++ [new]).map (·.guard) = es.map (·.guard) ++ [g]
      rw [List.map_append, List.map_singleton, hnew]
    · intro hmem
      obtain ⟨e, he, hg⟩ := List.mem_map.1 hmem
      exact hnone e he hg
    · exact (List.length_map _).trans_lt hroom
  | collapses _ _ => exact .inl rfl

theorem selector (h : Turns n g epoch c c') : c'.selector = c.selector := by
  cases h <;> rfl

/-- A chain that becomes megamorphic holds as many entries as are allowed, and none of them is for
    the receiver. -/
theorem collapse (h : Turns n g epoch c c') (hc : c.isMegamorphic = false)
    (hc' : c'.isMegamorphic) : n ≤ c.guards.length ∧ g ∉ c.guards := by
  cases h with
  | keeps _ =>
    rw [hc] at hc'
    cases hc'
  | refreshes _ _ _ _ _ | grows _ _ _ _ => cases hc'
  | @collapses s es hnone hfull =>
    refine ⟨hfull.trans_eq (List.length_map _).symm, fun hmem => ?_⟩
    obtain ⟨e, he, hg⟩ := List.mem_map.1 hmem
    exact hnone e he hg

/-- What is megamorphic stays as it is. -/
theorem of_megamorphic (h : Turns n g epoch c c') (hc : c.isMegamorphic) : c' = c := by
  cases h with
  | keeps _ => rfl
  | _ => cases hc

/-- An entry for the receiver leaves the length as it is. -/
theorem guards_of_mem (h : Turns n g epoch c c') (hg : g ∈ c.guards) :
    c'.isMegamorphic = c.isMegamorphic ∧ c'.guards = c.guards := by
  have hc : c.isMegamorphic = false := by
    obtain ⟨s, es | _⟩ := c
    · rfl
    · cases hg
  rcases h.guards_cases with hm | ⟨hm, heq | ⟨-, hnone, -⟩⟩
  · exact absurd hg (h.collapse hc hm).2
  · exact ⟨hm, heq⟩
  · exact absurd hg hnone

theorem extends_ (h : Turns n g epoch c c') : c.Extends c' := by
  refine ⟨h.selector, fun hm' => ?_⟩
  rcases h.guards_cases with hm | ⟨hm, heq | ⟨heq, -⟩⟩
  · rw [hm'] at hm
    cases hm
  · exact ⟨hm.symm.trans hm', heq ▸ List.prefix_rfl⟩
  · exact ⟨hm.symm.trans hm', heq ▸ List.prefix_append _ _⟩

theorem shaped (ht : Turns n g epoch c c') (h : c.Shaped n) : c'.Shaped n := by
  have hlength := h.length_le
  rcases ht.guards_cases with hm | ⟨-, heq | ⟨heq, hnone, hroom⟩⟩
  · obtain ⟨s, es | _⟩ := c'
    · cases hm
    · exact ⟨n.zero_le, .nil⟩
  · exact ⟨heq ▸ hlength, heq ▸ h.distinct⟩
  · constructor
    · rw [heq, List.length_append]
      exact hroom
    · rw [heq]
      exact List.nodup_append.2 ⟨h.distinct, List.nodup_singleton _, fun a ha b hb hab =>
        hnone (List.mem_singleton.1 hb ▸ hab ▸ ha)⟩

end Turns

/-! ### Going through a chain -/

/-- The world in which a message goes through a chain once more. No entry matches, and its receiver
    was outdated but is not any more. -/
def again? (c : Chain) (arguments : List Value) (w : World) : Option World :=
  match c.state with
  | .megamorphic => none
  | .cached entries =>
    match cached? c.selector entries arguments w with
    | some _ => none
    | none =>
      if entries.isEmpty || !w.isOutdated (arguments.headD .nil) then none
      else some (w.migrate (arguments.headD .nil))

/-- The answer of a chain to a message that does not go through it once more. -/
def answer (c : Chain) (arguments : List Value) (w : World) : Job × Chain × World :=
  match c.state with
  | .megamorphic =>
    let (job, w) := uncached c.selector arguments w
    (job, c, w)
  | .cached entries =>
    match cached? c.selector entries arguments w with
    | some job => (job, c, countHit w)
    | none => specialize c.selector entries arguments w

/-- The answer to a message is that of its last going through the chain. -/
theorem dispatch_eq (c : Chain) (arguments : List Value) (w : World) :
    c.dispatch arguments w = c.answer arguments ((c.again? arguments w).getD w) := by
  obtain ⟨s, es | _⟩ := c
  · simp only [dispatch, again?]
    cases hhit : cached? s es arguments w with
    | some job => simp only [Option.getD_none, answer, hhit]
    | none =>
      dsimp only
      split
      · simp only [Option.getD_none, answer, hhit]
      · rfl
  · rfl

/-- A message goes through a chain once more in the world in which its receiver is up to date. -/
theorem eq_migrate_of_again? (h : c.again? arguments w = some w') :
    w' = w.migrate (arguments.headD .nil) := by
  rw [again?] at h
  split at h
  · cases h
  · split at h
    · cases h
    · split at h <;> cases h
      rfl

/-- A message that goes through a chain a number of times before its answer, each time but the last
    because its receiver was outdated. -/
inductive Passes (c : Chain) (arguments : List Value) :
    Nat → World → Job × Chain × World → Prop
  | last {w : World} : c.again? arguments w = none → Passes c arguments 0 w (c.answer arguments w)
  | again {n : Nat} {w w' : World} {r : Job × Chain × World} :
      c.again? arguments w = some w' → Passes c arguments n w' r → Passes c arguments (n + 1) w r

theorem again?_migrate (hv : w.Has (arguments.headD .nil)) :
    c.again? arguments (w.migrate (arguments.headD .nil)) = none := by
  rw [again?]
  split
  · rfl
  · split
    · rfl
    · rw [w.isOutdated_migrate hv, Bool.not_false, Bool.or_true, if_pos rfl]

/-- A message goes through a chain at most twice, and comes to the answer of the chain. -/
theorem Passes.le_one {r : Job × Chain × World} (hv : w.Has (arguments.headD .nil))
    (h : c.Passes arguments n w r) : n ≤ 1 ∧ r = c.dispatch arguments w := by
  rw [dispatch_eq]
  cases h with
  | last hlast => exact ⟨Nat.zero_le 1, by rw [hlast, Option.getD_none]⟩
  | @again n _ w' _ hagain h =>
    have hlast : c.again? arguments w' = none :=
      eq_migrate_of_again? hagain ▸ again?_migrate hv
    cases h with
    | last _ => exact ⟨Nat.le_refl 1, by rw [hagain, Option.getD_some]⟩
    | again hagain' _ =>
      rw [hlast] at hagain'
      cases hagain'

/-- The answer of a chain is come to. -/
theorem exists_passes (c : Chain) (hv : w.Has (arguments.headD .nil)) :
    ∃ n, c.Passes arguments n w (c.dispatch arguments w) := by
  rw [dispatch_eq]
  cases hagain : c.again? arguments w with
  | none => exact ⟨0, .last hagain⟩
  | some w' =>
    refine ⟨1, .again hagain (.last ?_)⟩
    rw [eq_migrate_of_again? hagain]
    exact again?_migrate hv

/-! ### What an answer does to a chain -/

theorem newEntry_fst (s : Selector) (v : Value) (w : World) :
    (newEntry s v w).1.guard = w.guardOf v ∧ (newEntry s v w).1.epoch = w.classes.epoch := by
  unfold newEntry
  dsimp only
  split <;> exact ⟨rfl, rfl⟩

theorem specialize_turns (s : Selector) {es : List Entry} (arguments : List Value) (w : World)
    (hmiss : hit? es (w.guardOf (arguments.headD .nil)) w.classes.epoch = none) :
    Turns w.settings.cacheSize (w.guardOf (arguments.headD .nil)) w.classes.epoch
      ⟨s, .cached es⟩ (specialize s es arguments w).2.1 := by
  have hold : ∀ e ∈ es, e.guard = w.guardOf (arguments.headD .nil) → e.epoch ≠ w.classes.epoch := by
    intro e he hg hepoch
    rw [hit?, Option.map_eq_none_iff, List.find?_eq_none] at hmiss
    exact hmiss e he (by simp [hg, hepoch])
  unfold specialize
  extract_lets w₁ receiver w₂
  -- Counting a miss changes nothing that a new entry depends on.
  obtain ⟨hnew, hepoch⟩ := newEntry_fst s receiver w₁
  rw [miss, show hit? es (w₁.guardOf receiver) w₁.classes.epoch = none from hmiss]
  dsimp only
  cases hfind : es.findIdx? fun e => decide (e.guard = w₁.guardOf receiver) with
  | some slot =>
    obtain ⟨hlt, hguard, -⟩ := List.findIdx?_eq_some_iff_getElem.1 hfind
    have hguard := of_decide_eq_true hguard
    exact .refreshes (List.getElem?_eq_getElem hlt) hguard
      (hold _ (List.getElem_mem hlt) hguard) hnew hepoch
  | none =>
    have hnone : ∀ e ∈ es, e.guard ≠ w₁.guardOf receiver := fun e he =>
      of_decide_eq_false (List.findIdx?_eq_none_iff.1 hfind e he)
    dsimp only
    split
    · rename_i heq
      split at heq <;> cases heq
    · rename_i heq
      split at heq <;> cases heq
    · rename_i heq
      split at heq
      · rename_i hfull
        exact .collapses hnone hfull
      · cases heq
    · rename_i heq
      split at heq
      · cases heq
      · rename_i hroom
        exact .grows hnone (Nat.lt_of_not_le hroom) hnew hepoch

theorem answer_turns (c : Chain) (arguments : List Value) (w : World) :
    Turns w.settings.cacheSize (w.guardOf (arguments.headD .nil)) w.classes.epoch c
      (c.answer arguments w).2.1 := by
  obtain ⟨s, es | _⟩ := c
  · rw [answer]
    dsimp only
    cases hhit : hit? es (w.guardOf (arguments.headD .nil)) w.classes.epoch with
    | some t =>
      rw [show cached? s es arguments w = some (t.job s arguments) by rw [cached?, hhit]; rfl]
      obtain ⟨e, hfind, -⟩ := Option.map_eq_some_iff.1 hhit
      have hmatch := List.find?_some hfind
      simp only [Bool.and_eq_true, decide_eq_true_eq] at hmatch
      exact .keeps (.inr ⟨e, List.mem_of_find?_eq_some hfind, hmatch.2, hmatch.1⟩)
    | none =>
      rw [show cached? s es arguments w = none by rw [cached?, hhit]; rfl]
      exact specialize_turns s arguments w hhit
  · exact .keeps (.inl rfl)

/-- The receiver of a message is known to its chain by what it is when it goes through last. -/
def guardAt (c : Chain) (arguments : List Value) (w : World) : Guard :=
  ((c.again? arguments w).getD w).guardOf (arguments.headD .nil)

theorem dispatch_turns (c : Chain) (arguments : List Value) (w : World) :
    Turns w.settings.cacheSize (c.guardAt arguments w) w.classes.epoch c
      (c.dispatch arguments w).2.1 := by
  have h := c.answer_turns arguments ((c.again? arguments w).getD w)
  rw [← dispatch_eq] at h
  rw [guardAt]
  cases hagain : c.again? arguments w with
  | none =>
    rw [hagain] at h
    exact h
  | some w' =>
    rw [hagain, Option.getD_some, eq_migrate_of_again? hagain] at h
    rw [Option.getD_some, eq_migrate_of_again? hagain]
    -- Bringing an instance up to date changes neither the settings nor the classes.
    have hp := w.migrate_premises (arguments.headD .nil)
    rwa [World.settings_of_premises hp, World.classes_of_premises hp] at h

/-- What happens to a chain of which there may be `n` entries when a message goes through it. -/
structure Answers (n : Nat) (c : Chain) (arguments : List Value) (w : World) : Prop where
  turns : Turns n (c.guardAt arguments w) w.classes.epoch c (c.dispatch arguments w).2.1
  extends_ : c.Extends (c.dispatch arguments w).2.1
  /-- Where an entry is for the receiver, of whatever epoch, none is added or given up. -/
  settled : c.guardAt arguments w ∈ c.guards →
    (c.dispatch arguments w).2.1.isMegamorphic = c.isMegamorphic ∧
      (c.dispatch arguments w).2.1.guards = c.guards
  /-- All entries are given up only if there is no room for one more that is needed. -/
  full : c.isMegamorphic = false → (c.dispatch arguments w).2.1.isMegamorphic →
    c.guards.length = n ∧ c.guardAt arguments w ∉ c.guards
  megamorphic : c.isMegamorphic → (c.dispatch arguments w).2.1 = c
  /-- A message to a receiver that was made goes through the chain once, or twice if the receiver
      was outdated. -/
  passes : w.Has (arguments.headD .nil) →
    (∃ i, c.Passes arguments i w (c.dispatch arguments w)) ∧
      ∀ i r, c.Passes arguments i w r → i ≤ 1 ∧ r = c.dispatch arguments w

theorem Shaped.answers (h : c.Shaped n) (arguments : List Value) (w : World)
    (hn : w.settings.cacheSize = n) : c.Answers n arguments w := by
  have ht := hn ▸ c.dispatch_turns arguments w
  refine ⟨ht, ht.extends_, ht.guards_of_mem, fun hc hc' => ?_, ht.of_megamorphic, fun hv =>
    ⟨c.exists_passes hv, fun i r => Passes.le_one hv⟩⟩
  obtain ⟨hfull, hnone⟩ := ht.collapse hc hc'
  exact ⟨h.length_le.antisymm hfull, hnone⟩

/-! ### Histories -/

/-- What becomes of a chain by one message after another, in whatever worlds of machines that allow
    `n` entries. -/
def History (n : Nat) : Chain → Chain → Prop :=
  Relation.ReflTransGen fun c c' => ∃ (arguments : List Value) (w : World),
    w.settings.cacheSize = n ∧ c' = (c.dispatch arguments w).2.1

theorem History.dispatch (c : Chain) (arguments : List Value) (w : World) :
    c.History w.settings.cacheSize (c.dispatch arguments w).2.1 :=
  .single ⟨arguments, w, rfl, rfl⟩

theorem History.shaped (h : History n c c') (hc : c.Shaped n) : c'.Shaped n := by
  induction h with
  | refl => exact hc
  | tail _ hd ih =>
    obtain ⟨arguments, w, rfl, rfl⟩ := hd
    exact (dispatch_turns _ arguments w).shaped ih

theorem History.extends_ (h : History n c c') : c.Extends c' := by
  induction h with
  | refl => exact .refl c
  | tail _ hd ih =>
    obtain ⟨arguments, w, rfl, rfl⟩ := hd
    exact ih.trans (dispatch_turns _ arguments w).extends_

end Chain

end Parley
