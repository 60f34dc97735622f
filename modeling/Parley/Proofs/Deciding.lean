import Parley.Proofs.Guarded

/-!
# The check of a tape decides

A tape passes the check exactly if it may be executed at all: it divides into instructions, their
operands refer to what there is, and some assignment of depths follows the edges of its graph
(`Tape.Admissible`). All this is said without the search that finds the depths; the search comes
to the same verdict in whatever order it goes, since an assignment leaves it no choice
(`Assigns.unique`).

* `Settled.assigns`: the depths that the search ends with are an assignment;
* `Assigns.agree`: an assignment keeps the search from failing;
* `explore_attains`: the bound of the search is the peak of an instruction that it visited;
* `stackBound_decides`: the check accepts the admissible tapes, its bound is the largest depth
  before or after any instruction that execution may come to, and it never strays.
-/

namespace Parley.Tape

variable {β : Type} {t : Tape} {literals : Array (Literal β)} {arguments locals : Nat}
  {depth : Nat → Nat}

/-- A tape that divides into instructions whose operands refer to what there is, and that has an
    assignment of depths. -/
def Admissible (t : Tape) (literals : Array (Literal β)) (arguments locals : Nat) : Prop :=
  ∃ starts, t.Divides 0 starts ∧
    (∀ ip ∈ starts, ∀ op first second, t.Reads ip op first second →
      op.Refers literals arguments locals starts ip first second) ∧
    ∃ depth, t.Assigns literals depth

/-! ### Assignments -/

/-- Two assignments differ at most where execution does not come to. -/
theorem Assigns.unique {depth' : Nat → Nat} (h : t.Assigns literals depth)
    (h' : t.Assigns literals depth') {ip : Nat} (hr : t.Reachable literals ip) :
    depth' ip = depth ip := by
  induction hr with
  | refl => rw [h.start, h'.start]
  | @tail ip ip' hr he ih =>
    obtain ⟨pops, pushes, he⟩ := he
    have := h.agrees ip hr ip' pops pushes he
    have := h'.agrees ip hr ip' pops pushes he
    omega

/-- What the first two parts of the check establish. -/
structure Formed (t : Tape) (literals : Array (Literal β)) (arguments locals : Nat) : Prop where
  whole : ∀ ip ∈ t.starts, ∃ op, t.Whole ip op
  refers : ∀ ip ∈ t.starts, ∀ op first second, t.Reads ip op first second →
    op.Refers literals arguments locals t.starts ip first second

theorem admissible_iff : t.Admissible literals arguments locals ↔
    t.Formed literals arguments locals ∧ ∃ depth, t.Assigns literals depth := by
  constructor
  · rintro ⟨starts, hd, ho, ha⟩
    obtain ⟨rfl, hw⟩ := divides_iff.1 hd
    exact ⟨⟨hw, ho⟩, ha⟩
  · rintro ⟨⟨hw, ho⟩, ha⟩
    exact ⟨t.starts, divides_iff.2 ⟨rfl, hw⟩, ho, ha⟩

namespace Formed

variable {ip d : Nat} {depths : Array (Option Nat)} {bound : Nat}
  (hf : t.Formed literals arguments locals)

include hf

/-- What there is at an instruction start. -/
theorem reads (hip : ip ∈ t.starts) : ∃ op first second,
    t.Reads ip op first second ∧ op.isQuickened = false ∧
      op.Refers literals arguments locals t.starts ip first second := by
  obtain ⟨op, hw⟩ := hf.whole ip hip
  have hr := reads_of_opcode hw.opcode hw.fits
  exact ⟨op, _, _, hr, hw.plain, hf.refers ip hip op _ _ hr⟩

/-- An edge leads to an instruction start, unless it leads off the tape. -/
theorem mem_of_edge {ip' pops pushes : Nat} (hip : ip ∈ t.starts)
    (he : t.Edge literals ip ip' pops pushes) (hlt : ip' < t.size) : ip' ∈ t.starts := by
  cases he with
  | onward hr => exact next_mem_startsFrom hip hr.opcode hlt
  | aside hr hl =>
    obtain ⟨target, hmem, hl'⟩ := hf.refers ip hip _ _ _ hr
    exact hl.unique hl' ▸ hmem

theorem mem_starts (ha : t.Assigns literals depth) (hr : t.Reachable literals ip) :
    ip ∈ t.starts := by
  induction hr with
  | refl => exact mem_startsFrom_self (ha.inside 0 .refl)
  | @tail ip ip' hr he ih =>
    obtain ⟨pops, pushes, he'⟩ := he
    exact hf.mem_of_edge ih he' (ha.inside ip' (hr.tail ⟨pops, pushes, he'⟩))

/-- A visit of an instruction start, if it succeeds, says what the graph says. -/
theorem describes {v : Visit} (hip : ip ∈ t.starts) (hv : t.visit literals ip d = .ok v) :
    (∀ w pops pushes, t.Leaves literals ip w pops pushes → pops ≤ d) ∧
      (∀ x, x ∈ v.next.toList ++ v.branch.toList ↔
        ∃ pops pushes, t.Edge literals ip x.1 pops pushes ∧ x.2 + pops = d + pushes) ∧
      IsGreatest (t.heightsAt literals ip d) v.peak := by
  obtain ⟨op, first, second, hr, -, href⟩ := hf.reads hip
  obtain ⟨pops, puts, hd⟩ := visit_describes hv hr.opcode
  refine ⟨fun w p q hw => ?_, hd.mem_iff hr ?_, hd.isGreatest hr⟩
  · rw [(hd.pops_eq hr hw).1]
    exact hd.enough
  · rintro j wide rfl
    obtain ⟨target, -, hl⟩ := href
    exact ⟨target, hl⟩

/-! ### From depths to an assignment -/

/-- Settled depths are passed on along the edges. -/
theorem settled_edge (hs : t.Settled literals depths bound) (hip : ip ∈ t.starts)
    (hd : depths[ip]? = some (some d)) {ip' pops pushes : Nat}
    (he : t.Edge literals ip ip' pops pushes) :
    ip' ∈ t.starts ∧ ∃ d' : Nat, depths[ip']? = some (some d') ∧ d' + pops = d + pushes := by
  obtain ⟨v, hv, -, hlead⟩ := hs.visits ip d hd
  obtain ⟨hfed, hmem, -⟩ := hf.describes hip hv
  obtain ⟨w, hw⟩ := he.leaves
  have henough := hfed w pops pushes hw
  have hsum : d - pops + pushes + pops = d + pushes := by omega
  have hd' := hlead _ ((hmem (ip', d - pops + pushes)).2 ⟨pops, pushes, he, hsum⟩)
  obtain ⟨v', hv', -⟩ := hs.visits ip' _ hd'
  exact ⟨hf.mem_of_edge hip he (lt_of_visit hv'), _, hd', hsum⟩

theorem settled_reachable (hs : t.Settled literals depths bound) (hr : t.Reachable literals ip) :
    ip ∈ t.starts ∧ ∃ d : Nat, depths[ip]? = some (some d) := by
  induction hr with
  | refl =>
    obtain ⟨v, hv, -⟩ := hs.visits 0 0 hs.start
    exact ⟨mem_startsFrom_self (lt_of_visit hv), 0, hs.start⟩
  | tail _ he ih =>
    obtain ⟨hip, d, hd⟩ := ih
    obtain ⟨pops, pushes, he⟩ := he
    obtain ⟨hip', d', hd', -⟩ := hf.settled_edge hs hip hd he
    exact ⟨hip', d', hd'⟩

/-- The depths that a search ends with are an assignment, and so they are any assignment. -/
theorem exists_assigns (hs : t.Settled literals depths bound) : ∃ depth, t.Assigns literals depth ∧
    ∀ ip, t.Reachable literals ip → depths[ip]? = some (some (depth ip)) := by
  have hdepth : ∀ ip, t.Reachable literals ip →
      depths[ip]? = some (some (depths[ip]?.join.getD 0)) := fun ip hr => by
    obtain ⟨-, d, hd⟩ := hf.settled_reachable hs hr
    simp [hd]
  refine ⟨fun ip => depths[ip]?.join.getD 0, ⟨?_, fun ip hr => ?_, fun ip hr => ?_,
    fun ip hr ip' pops pushes he => ?_⟩, hdepth⟩
  · simp [hs.start]
  · exact lt_of_mem_startsFrom (hf.settled_reachable hs hr).1
  · obtain ⟨v, hv, -⟩ := hs.visits ip _ (hdepth ip hr)
    exact (hf.describes (hf.settled_reachable hs hr).1 hv).1
  · obtain ⟨-, d', hd', hsum⟩ :=
      hf.settled_edge hs (hf.settled_reachable hs hr).1 (hdepth ip hr) he
    simpa [hd'] using hsum

/-! ### From an assignment to depths -/

open Classical in
/-- An assignment agrees along every edge that the search follows. -/
theorem agree (ha : t.Assigns literals depth) :
    t.Agree literals fun ip => if t.Reachable literals ip then some (depth ip) else none := by
  refine ⟨?_, fun ip d hd => ?_, fun ip d hd => ?_⟩
  · rw [if_pos .refl, ha.start]
  · split at hd
    · rename_i hr
      exact ha.inside ip hr
    · cases hd
  · split at hd
    · rename_i hr
      cases hd
      have hip := hf.mem_starts ha hr
      obtain ⟨op, first, second, hreads, hplain, href⟩ := hf.reads hip
      obtain ⟨pops, puts, heff⟩ := exists_effect hreads hplain href
      obtain ⟨w, ht, hw⟩ := trades_of_effect hreads heff
      obtain ⟨v, hv⟩ := visit_of_enough hreads.opcode heff
        (ha.fed ip hr w pops puts ⟨op, first, second, hreads, ht⟩) fun hfall =>
          ha.inside _ (hr.tail ⟨pops, puts, .onward hreads (hw hfall ▸ ht)⟩)
      refine ⟨v, hv, fun x hx => ?_⟩
      obtain ⟨p, q, he, hsum⟩ := ((hf.describes hip hv).2.1 x).1 hx
      have hagrees := ha.agrees ip hr x.1 p q he
      have hr' : t.Reachable literals x.1 := hr.tail ⟨p, q, he⟩
      rw [if_pos hr', Option.some.injEq]
      omega
    · cases hd

end Formed

/-! ### The bound -/

/-- The bound of a search is the one it starts with or the peak of a visit. Whatever holds of the
    places that wait, and is passed on by visits, holds of the place of that visit. -/
theorem explore_attains {P : Nat → Nat → Prop}
    (hP : ∀ ip d v, P ip d → t.visit literals ip d = .ok v →
      ∀ x ∈ v.next.toList ++ v.branch.toList, P x.1 x.2)
    {depths final : Array (Option Nat)} {waiting : List (Nat × Nat)} {bound m : Nat}
    (hw : ∀ x ∈ waiting, P x.1 x.2)
    (h : t.explore literals depths waiting bound = .ok (final, m)) :
    m = bound ∨ ∃ ip d v, P ip d ∧ t.visit literals ip d = .ok v ∧ m = v.peak := by
  induction depths, waiting, bound using explore.induct t literals with
  | case1 depths bound =>
    rw [explore] at h
    cases h
    exact .inl rfl
  | case2 depths bound ip rest hip seen hseen ih =>
    rw [explore_of_some hip hseen, if_pos rfl] at h
    exact ih (fun x hx => hw x (List.mem_cons_of_mem _ hx)) h
  | case3 depths bound ip depth rest hip seen hseen hne =>
    rw [explore_of_some hip hseen, if_neg hne] at h
    cases h
  | case4 depths bound ip depth rest hip hnone e hv =>
    rw [explore_of_error hip hnone hv] at h
    cases h
  | case5 depths bound ip depth rest hip hnone v hv ih =>
    rw [explore_of_none hip hnone hv] at h
    have hplace := hw (ip, depth) (List.mem_cons_self ..)
    have hwaits : ∀ x ∈ v.next.toList ++ (v.branch.toList ++ rest), P x.1 x.2 := fun x hx => by
      rw [← List.append_assoc, List.mem_append] at hx
      rcases hx with hx | hx
      · exact hP ip depth v hplace hv x hx
      · exact hw x (List.mem_cons_of_mem _ hx)
    rcases ih hwaits h with hm | hm
    · rcases Nat.le_total bound v.peak with hle | hle
      · rw [Nat.max_eq_right hle] at hm
        exact .inr ⟨ip, depth, v, hplace, hv, hm⟩
      · rw [Nat.max_eq_left hle] at hm
        exact .inl hm
    · exact .inr hm
  | case6 depths bound ip depth rest hip =>
    rw [explore, dif_neg hip] at h
    cases h

/-- The bound of a search from the beginning is the largest depth that there is. -/
theorem Formed.isGreatest (hf : t.Formed literals arguments locals)
    {depths : Array (Option Nat)} {m : Nat}
    (h : t.explore literals (Array.replicate t.size none) [(0, 0)] 0 = .ok (depths, m))
    (hs : t.Settled literals depths m) (ha : t.Assigns literals depth) :
    IsGreatest (t.heights literals depth) m := by
  constructor
  · -- The search visits offsets that execution comes to, with the depths that are assigned.
    have hP : ∀ ip d v, (t.Reachable literals ip ∧ depth ip = d) →
        t.visit literals ip d = .ok v → ∀ x ∈ v.next.toList ++ v.branch.toList,
          t.Reachable literals x.1 ∧ depth x.1 = x.2 := by
      rintro ip _ v ⟨hr, rfl⟩ hv x hx
      obtain ⟨p, q, he, hsum⟩ := ((hf.describes (hf.mem_starts ha hr) hv).2.1 x).1 hx
      have hagrees := ha.agrees ip hr x.1 p q he
      exact ⟨hr.tail ⟨p, q, he⟩, by omega⟩
    have hstart : ∀ x ∈ [(0, 0)], t.Reachable literals x.1 ∧ depth x.1 = x.2 := fun x hx => by
      rw [List.mem_singleton] at hx
      rw [hx]
      exact ⟨.refl, ha.start⟩
    rcases explore_attains hP hstart h with rfl | ⟨ip, d, v, ⟨hr, rfl⟩, hv, rfl⟩
    · exact ⟨0, .refl, .inl ha.start.symm⟩
    · exact ⟨ip, hr, (hf.describes (hf.mem_starts ha hr) hv).2.2.1⟩
  · rintro n ⟨ip, hr, hn⟩
    obtain ⟨depth', ha', hd⟩ := hf.exists_assigns hs
    obtain ⟨v, hv, hpeak, -⟩ := hs.visits ip _ (hd ip hr)
    rw [← ha.unique ha' hr] at hn
    exact ((hf.describes (hf.mem_starts ha hr) hv).2.2.2 hn).trans hpeak

/-! ### The verdict -/

theorem check_of_stackBound {m : Nat} (h : t.stackBound literals arguments locals = .ok m) :
    ∃ depths, t.check literals arguments locals = .ok (depths, m) := by
  rw [stackBound] at h
  cases hc : t.check literals arguments locals with
  | error e =>
    rw [hc] at h
    cases h
  | ok r =>
    rw [hc] at h
    cases h
    exact ⟨r.1, rfl⟩

theorem explore_of_check {r : Array (Option Nat) × Nat}
    (h : t.check literals arguments locals = .ok r) :
    t.explore literals (Array.replicate t.size none) [(0, 0)] 0 = .ok r := by
  rw [check] at h
  split at h
  · cases h
  · split at h
    · cases h
    · split at h
      · cases h
      · exact h

theorem Checked.formed {depths : Array (Option Nat)} {bound : Nat}
    (h : t.Checked literals arguments locals depths bound) :
    t.Formed literals arguments locals := by
  refine ⟨h.whole, fun ip hip op first second hr => ?_⟩
  obtain ⟨marks, hm, hc⟩ := h.operands ip hip op hr.opcode
  exact (checkOperands_iff hm hr).1 hc

theorem Formed.check (hf : t.Formed literals arguments locals) (ha : t.Assigns literals depth) :
    ∃ r, t.check literals arguments locals = .ok r := by
  refine check_of_agree _ hf.whole (fun marks hm ip hip op ho => ?_) (hf.agree ha)
  obtain ⟨op', first, second, hr, -, href⟩ := hf.reads hip
  obtain rfl : op' = op := Option.some.inj (hr.opcode.symm.trans ho)
  exact (checkOperands_iff hm hr).2 href

/-- On every tape the check comes to a verdict without reading outside of anything or taking
    more off a number than there is. It accepts the tapes that are admissible, and its bound is
    the largest depth before or after any instruction that execution may come to. -/
theorem stackBound_decides (t : Tape) (literals : Array (Literal β)) (arguments locals : Nat) :
    (t.guardedCheck literals arguments locals).map (·.map (·.2)) =
        some (t.stackBound literals arguments locals) ∧
      ((∃ m, t.stackBound literals arguments locals = .ok m) ↔
        t.Admissible literals arguments locals) ∧
      ∀ m, t.stackBound literals arguments locals = .ok m →
        ∀ depth, t.Assigns literals depth → IsGreatest (t.heights literals depth) m := by
  refine ⟨by rw [guardedCheck_eq]; rfl, ⟨?_, ?_⟩, ?_⟩
  · rintro ⟨m, hm⟩
    obtain ⟨depths, hc⟩ := check_of_stackBound hm
    have hchecked := checked_of_check hc
    obtain ⟨depth, ha, -⟩ := hchecked.formed.exists_assigns hchecked.settled
    exact admissible_iff.2 ⟨hchecked.formed, depth, ha⟩
  · intro h
    obtain ⟨hf, depth, ha⟩ := admissible_iff.1 h
    obtain ⟨r, hr⟩ := hf.check ha
    exact ⟨r.2, by rw [stackBound, hr]; rfl⟩
  · intro m hm depth ha
    obtain ⟨depths, hc⟩ := check_of_stackBound hm
    have hchecked := checked_of_check hc
    exact hchecked.formed.isGreatest (explore_of_check hc) hchecked.settled ha

end Parley.Tape
