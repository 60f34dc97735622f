import Parley.Proofs.Affirming

/-!
# The law of loops that start again

A machine with a loop in progress is in one of four phases (`Repetition.Phase`): the activation goes
on by itself, one of the blocks is evaluated, it was reported that the block has escaped, or the
loop was left. A step leads from phase to phase, whether it is the turn of the loop or not
(`Phase.step`, `Phase.turn`), and so does whatever a host does between two steps
(`Phase.meanwhile`). Together with what the activation relies on (`Repetition.Runs`) this is an
invariant of every course (`Course.progress`), and the law of the loop is read off it
(`Machine.Ordinary.repeats`).
-/

namespace Parley

namespace Repetition

variable {l : Repetition} {R : Prop} {h : Heap} {w : World} {m m' : Machine} {p : Pending}
  {t : Turn} {ts : List Turn} {ip ip' r : Nat} {base limit : Nat} {ran : FrameRef → Code}

/-! ### Turns that are due -/

/-- Before the next turn nothing is seen of the loop. -/
theorem Busy.quiet (hb : l.Working R ts (r + 1) m) : (∀ t, ¬ l.Shows m t) ∧ ¬ l.Over m := by
  have hdecided : ∀ {m : Machine}, l.Sends m l.decided → (∀ t, ¬ l.Shows m t) ∧ ¬ l.Over m := by
    intro m hm
    have h₁ := l.asked_lt
    have h₂ := l.decided_lt
    have h₃ := l.evaluated_lt
    refine ⟨fun t ht => ?_, hm.awaits.not_over h₁.ne' h₂.ne⟩
    have heq := hm.awaits.ip_eq ht.awaits
    cases t with
    | asks | tells v => exact h₁.ne' heq
    | runs | ran => exact h₂.ne heq
    | replays => exact (h₂.trans h₃).ne heq
  generalize hrank : r + 1 = rank at hb
  obtain ⟨w, job, k⟩ := m
  have hb : l.Busy R w.heap.shell ts rank job k := hb
  cases hb with
  | executes n ho | enters n n' hc hg | parts n n' hc hg => exact quiet_of_execute rfl
  | looks n q hq | calls n q hq hp hb =>
    refine ⟨fun t ht => ?_, fun ho => nomatch ho.isOutcome⟩
    cases t with
    | ran =>
      obtain ⟨⟨v, hv⟩, -⟩ := ht
      cases hv
    | _ => cases ht.1
  | goesOn n | exits n hR he | unwinds n =>
    exact hdecided ⟨n, rfl⟩
  | asks | runs | replays | answers => cases hrank

/-- When nothing is left to do until the next turn, it is seen, or the loop has come to its
    value. -/
theorem Busy.arrives (hb : l.Working R ts 0 m) :
    ¬ l.Over m ∧ (∃ t, l.Shows m t) ∨ l.Answers m .nil := by
  obtain ⟨w, job, k⟩ := m
  have hb : l.Busy R w.heap.shell ts 0 job k := hb
  cases hb with
  | executes n ho => cases ho
  | asks n => exact .inl ⟨fun ho => (nomatch ho.isOutcome), .asks, rfl, n, rfl⟩
  | answers _ => exact .inr ⟨rfl, rfl⟩
  | runs n => exact .inl ⟨fun ho => (nomatch ho.isOutcome), .runs, rfl, n, rfl⟩
  | replays n =>
    have hsends : l.Sends ⟨w, .unwind .restart,
        .sender ⟨l.code, l.frame, l.replayed, [], n⟩ :: l.outer⟩ l.replayed := ⟨n, rfl⟩
    have hasked := l.asked_lt.trans (l.decided_lt.trans l.evaluated_lt)
    exact .inl ⟨hsends.awaits.not_over hasked.ne' l.evaluated_lt.ne', .replays, rfl, hsends⟩

/-! ### Where a machine is -/

/-- After which turns of a round a block is evaluated, and where the activation waits for it. -/
inductive Evaluating (l : Repetition) : List Turn → Nat → Prop
  | condition : Evaluating l [.asks] asked
  | body : Evaluating l [.asks, .tells (.bool l.on), .runs] l.evaluated

/-- Where a machine is with a loop, after some turns of a round. -/
inductive Phase (l : Repetition) (R : Prop) (m : Machine) : List Turn → Prop
  /-- The activation goes on by itself. -/
  | busy {ts : List Turn} {r : Nat} : l.Working R ts r m → Phase l R m ts
  /-- A block is evaluated, or there was no room for it. -/
  | evaluates {ts : List Turn} {ip : Nat} (n : Nat) : l.Evaluating ts ip →
      m.Tops (.sender ⟨l.code, l.frame, ip, [], n⟩ :: l.outer) →
      R ∨ (∃ f, m.job = .fail f) ∧ m.pending = .sender ⟨l.code, l.frame, ip, [], n⟩ :: l.outer →
        Phase l R m ts
  /-- It was reported that a block has escaped. -/
  | reports {ts : List Turn} {ip : Nat} (n : Nat) : l.Evaluating ts ip →
      .reporter ⟨l.code, l.frame, ip, [], n⟩ :: l.outer <:+ m.pending → R → Phase l R m ts
  | left {ts : List Turn} : ts <+: l.round → l.Left m → l.Ended m.world.heap.shell → Phase l R m ts

theorem Busy.ordered {job : Job} {k : List Pending} (hb : l.Busy R h ts r job k) :
    ts <+: l.round ∨ ts <+: [.asks, .tells (.bool !l.on)] := by
  have hother : [Turn.asks, .tells (.bool !l.on)] <+: [.asks, .tells (.bool !l.on)] :=
    List.prefix_rfl
  have hstart : [] <+: l.round := List.nil_prefix
  have hon : [Turn.asks, .tells (.bool l.on)] <+: l.round := ⟨[.runs, .ran, .replays], rfl⟩
  have hran : [Turn.asks, .tells (.bool l.on), .runs, .ran] <+: l.round := ⟨[.replays], rfl⟩
  have htells : ∀ b, [Turn.asks, .tells (.bool b)] <+: l.round ∨
      [Turn.asks, .tells (.bool b)] <+: [.asks, .tells (.bool !l.on)] := by
    intro b
    by_cases h : b = l.on
    · exact .inl (h ▸ hon)
    · exact .inr (Bool.eq_not_iff.2 h ▸ hother)
  have herrand : ∀ q, (l.errand q).turns <+: l.round ∨
      (l.errand q).turns <+: [.asks, .tells (.bool !l.on)] := by
    intro q
    cases q with
    | condition => exact .inl hstart
    | exit b e => exact htells b
    | body => exact .inl hon
    | restart => exact .inl hran
  cases hb with
  | executes n ho =>
    cases ho with
    | starts => exact .inl hstart
    | tests b _ => exact htells b
    | leaves _ | returns _ => exact .inr hother
    | drops | fetches => exact .inl hon
    | discards v | turns => exact .inl hran
    | sends q _ => exact herrand q
  | looks n q _ | calls n q _ _ _ => exact herrand q
  | asks => exact .inl hstart
  | goesOn | runs => exact .inl hon
  | exits | enters | parts | unwinds | answers => exact .inr hother
  | replays => exact .inl hran

namespace Evaluating

theorem ordered (he : l.Evaluating ts ip) : ts <+: l.round := by
  cases he with
  | condition => exact ⟨[.tells (.bool l.on), .runs, .ran, .replays], rfl⟩
  | body => exact ⟨[.ran, .replays], rfl⟩

theorem lt (he : l.Evaluating ts ip) : ip < l.replayed := by
  cases he with
  | condition => exact l.asked_lt.trans (l.decided_lt.trans l.evaluated_lt)
  | body => exact l.evaluated_lt

theorem place (he : l.Evaluating ts ip) {p : Nat → Prop} (h : p ip) : p asked ∨ p l.evaluated := by
  cases he with
  | condition => exact .inl h
  | body => exact .inr h

/-- The answer of the block is seen. -/
theorem shows (he : l.Evaluating ts ip) (h : l.Awaits m ip) {v : Value} (hjob : m.job = .answer v) :
    ∃ t, l.Shows m t := by
  cases he with
  | condition => exact ⟨.tells v, hjob, h⟩
  | body => exact ⟨.ran, ⟨v, hjob⟩, h⟩

end Evaluating

theorem Phase.ordered (h : l.Phase R m ts) :
    ts <+: l.round ∨ ts <+: [.asks, .tells (.bool !l.on)] := by
  cases h with
  | busy hb => exact Busy.ordered hb
  | evaluates n he _ _ | reports n he _ _ => exact .inl he.ordered
  | left hts _ _ => exact .inl hts

/-- The activation executes or waits. -/
def Present (l : Repetition) (m : Machine) : Prop :=
  ∃ a : Activation, a.code = l.code ∧ a.frame = l.frame ∧
    (m.job = .execute a ∨ ∃ p ∈ m.pending, p.activation? = some a)

theorem Phase.present (h : l.Phase R m ts) (hover : ¬ l.Over m) : l.Present m := by
  cases h with
  | busy hb =>
    obtain ⟨w, job, k⟩ := m
    have hb : l.Busy R w.heap.shell ts _ job k := hb
    cases hb with
    | executes n ho => exact ⟨_, rfl, rfl, .inl rfl⟩
    | answers _ => exact absurd (.inl ⟨.nil, rfl, rfl⟩) hover
    | _ => exact ⟨_, rfl, rfl, .inr ⟨_, List.mem_cons_self, rfl⟩⟩
  | evaluates n _ ht _ => exact ⟨_, rfl, rfl, .inr ⟨_, ht.suffix.subset List.mem_cons_self, rfl⟩⟩
  | reports n _ hk _ => exact ⟨_, rfl, rfl, .inr ⟨_, hk.subset List.mem_cons_self, rfl⟩⟩
  | left _ hl _ => exact absurd (.inr (.inl hl)) hover

theorem Present.outcome (h : l.Present m) : m.outcome = .unfinished := by
  obtain ⟨a, -, -, ha⟩ := h
  by_contra hidle
  have hk := Machine.pending_of_idle hidle
  rcases ha with hjob | ⟨p, hp, -⟩
  · refine hidle ?_
    rw [Machine.outcome, hjob]
  · rw [hk] at hp
    cases hp

/-- Whatever comes next, what the loop relies on stays, as long as the messages are as they are
    meant. -/
theorem Runs.next (hr : l.Runs base limit m ran) (hp : l.Present m) (hn : m.Next m')
    (hi : m'.world.classes.Intact) : ∃ ran', l.Runs base limit m' ran' := by
  have hsettled := hr.ordinary.settled
  obtain ⟨s, hs⟩ := hsettled.stock
  have hidle := hp.outcome
  obtain ⟨a, hcode, hframe, ha⟩ := hp
  have hseated : a.Seated m.world.heap ran := by
    rcases ha with hjob | ⟨p, hp, hpa⟩
    · exact hsettled.housed.executes a hjob
    · exact hsettled.housed.waits p hp a hpa
  have hlt : l.frame < m.world.heap.frames.size := hframe ▸ hseated.frame
  have hspares : (ran l.frame).Sparing := by
    rw [← hframe, hseated.code, hcode]
    exact hr.lays.spares
  refine ⟨_, hr.ordinary.next hn, hr.lays, hi, fun _ => ?_, hn.stands hidle hs hr.stands⟩
  rw [hn.arguments hsettled hlt hspares]
  exact hr.arguments hlt

theorem Runs.step (hr : l.Runs base limit m ran) (hp : l.Present m) :
    ∃ ran', l.Runs base limit m.step ran' :=
  hr.next hp (.step m) (hr.ordinary.settled.step_classes ▸ hr.intact)

/-! ### From one phase to the next -/

/-- The activation is ended by an unwind that is not for it. -/
theorem left_of_ending {u : Unwind} (ho : m.Ordinary ran) (hp : l.Waits p ip)
    (hk : m.pending = p :: l.outer) (hjob : m.job = .unwind u)
    (hu : u.passesOn ∨ ∃ a, p = .reporter a)
    (hne : ∀ v, u ≠ .nonLocal (m.world.heap.frame l.frame).activation v) :
    m.step.job = .unwind u ∧ m.step.pending = l.outer ∧ l.Ended m.step.world.heap.shell := by
  obtain ⟨w, job, k⟩ := m
  obtain rfl : job = .unwind u := hjob
  obtain rfl : k = p :: l.outer := hk
  have hended := ended_of_step ho (frames_of_waits hp rfl)
  obtain ⟨n, hp⟩ := hp
  have hu : u.passesOn ∨ p = .reporter ⟨l.code, l.frame, ip, [], n⟩ := by
    refine hu.imp_right ?_
    rintro ⟨a, rfl⟩
    rw [Option.some.inj hp]
  obtain ⟨w', hstep, -⟩ := Machine.step_ending hp hu w l.outer
  rw [Unwind.ending_of_foreign hne] at hstep
  rw [hstep] at hended ⊢
  exact ⟨rfl, rfl, hended rfl⟩

theorem Phase.left_of_ending {u : Unwind} (ho : m.Ordinary ran) (hp : l.Waits p ip)
    (he : l.Evaluating ts ip) (hk : m.pending = p :: l.outer) (hjob : m.job = .unwind u)
    (hu : u.passesOn ∨ ∃ a, p = .reporter a) (hover : ¬ l.Over m) : l.Phase R m.step ts := by
  have hplace : l.Awaits m asked ∨ l.Awaits m l.evaluated := he.place ⟨p, hp, hk⟩
  have hne : ∀ v, u ≠ .nonLocal (m.world.heap.frame l.frame).activation v := by
    rintro v rfl
    exact hover (.inr (.inr (.returns hjob hplace)))
  obtain ⟨hjob', hk', hended⟩ := Repetition.left_of_ending ho hp hk hjob hu hne
  exact .left he.ordered ⟨⟨u, hjob'⟩, hk'⟩ hended

/-- A step at which nothing is seen of the loop. -/
theorem Phase.step (hr : l.Runs base limit m ran) (hover : ¬ l.Over m) (hquiet : ∀ t, ¬ l.Shows m t)
    (h : l.Phase (l.Room base limit) m ts) : l.Phase (l.Room base limit) m.step ts := by
  cases h with
  | @busy r hb =>
    cases r with
    | zero =>
      rcases Busy.arrives hb with ⟨-, t, ht⟩ | ha
      · exact absurd ht (hquiet t)
      · exact absurd (.inl ⟨.nil, ha⟩) hover
    | succ r =>
      obtain ⟨r', -, hb'⟩ := Busy.step hb id hr
      exact .busy hb'
  | @evaluates ip n he ht hroom =>
    have hsettled := hr.ordinary.settled
    by_cases hend : m.job.isOutcome ∧ m.pending = .sender ⟨l.code, l.frame, ip, [], n⟩ :: l.outer
    · obtain ⟨ho, hk⟩ := hend
      have hp : l.Waits (.sender ⟨l.code, l.frame, ip, [], n⟩) ip := ⟨n, rfl⟩
      obtain ⟨v, hjob⟩ | ⟨u, hjob⟩ := Job.isOutcome_iff.1 ho
      · obtain ⟨t, ht⟩ := he.shows ⟨_, hp, hk⟩ hjob
        exact absurd ht (hquiet t)
      · cases u with
        | nonLocal _ _ | failed _ =>
          exact .left_of_ending hr.ordinary hp he hk hjob (.inl rfl) hover
        | restart =>
          have hsends : l.Sends m asked ∨ l.Sends m l.evaluated := he.place ⟨n, hk⟩
          exact absurd (.inr (.inr (.restart hjob hsends))) hover
        | escaped b v =>
          refine .reports n he ?_ (hroom.resolve_right ?_)
          · obtain ⟨w, job, k⟩ := m
            obtain rfl : job = .unwind (.escaped b v) := hjob
            obtain rfl : k = _ := hk
            exact List.suffix_rfl
          · rintro ⟨⟨f, hf⟩, -⟩
            cases hjob.symm.trans hf
    · refine .evaluates n he (ht.step hsettled fun ho hk => hend ⟨ho, hk⟩) (.inl ?_)
      refine hroom.resolve_right ?_
      rintro ⟨⟨f, hf⟩, hk⟩
      refine hend ⟨?_, hk⟩
      rw [hf]
      rfl
  | @reports ip n he hk hroom =>
    by_cases hend : m.job.isOutcome ∧ m.pending = .reporter ⟨l.code, l.frame, ip, [], n⟩ :: l.outer
    · obtain ⟨ho, hk⟩ := hend
      have hp : l.Waits (.reporter ⟨l.code, l.frame, ip, [], n⟩) ip := ⟨n, rfl⟩
      obtain ⟨v, hjob⟩ | ⟨u, hjob⟩ := Job.isOutcome_iff.1 ho
      · obtain ⟨t, ht⟩ := he.shows ⟨_, hp, hk⟩ hjob
        exact absurd ht (hquiet t)
      · exact .left_of_ending hr.ordinary hp he hk hjob (.inr ⟨_, rfl⟩) hover
    · obtain ⟨s, hs⟩ := hr.ordinary.settled.stock
      exact .reports n he (Machine.step_keeps hs hk fun ho hk' => hend ⟨ho, hk'⟩) hroom
  | left _ hl _ => exact absurd (.inr (.inl hl)) hover

/-- A block is evaluated if there is room for it. -/
theorem Phase.of_evaluate {b : BlockRef} {n : Nat} (he : l.Evaluating ts ip)
    (hs : Machine.Stands ⟨w, .evaluate b [], .sender ⟨l.code, l.frame, ip, [], n⟩ :: l.outer⟩
      base limit) : l.Phase (l.Room base limit)
      (Machine.step ⟨w, .evaluate b [], .sender ⟨l.code, l.frame, ip, [], n⟩ :: l.outer⟩) ts := by
  rcases Machine.step_evaluate w b [] (.sender ⟨l.code, l.frame, ip, [], n⟩ :: l.outer) with
    ⟨w', hstep, hlt, -⟩ | ⟨f, hstep, -⟩
  · rw [hstep]
    exact .evaluates n he (.executes rfl rfl) (.inl ((room_iff ⟨n, rfl⟩ rfl hs).2 hlt))
  · rw [hstep]
    exact .evaluates n he (.ends rfl rfl) (.inr ⟨⟨f, rfl⟩, rfl⟩)

/-- The answer of a block goes onto the stack of the activation. -/
theorem step_of_answer {v : Value} (hp : l.Waits p ip) (hk : m.pending = p :: l.outer)
    (hjob : m.job = .answer v) :
    ∃ n, m.step = ⟨m.world, .execute ⟨l.code, l.frame, ip, [v], n⟩, l.outer⟩ := by
  obtain ⟨n, hp⟩ := hp
  obtain ⟨w, job, k⟩ := m
  obtain rfl : job = .answer v := hjob
  obtain rfl : k = p :: l.outer := hk
  have hby := Machine.settledBy hp (show (Job.answer v).isOutcome from rfl) w l.outer
  refine ⟨n, ?_⟩
  generalize Machine.step _ = m' at hby
  cases hby
  rfl

theorem Phase.of_answer {v : Value} (he : l.Evaluating ts ip) (hroom : R) (hp : l.Waits p ip)
    (hk : m.pending = p :: l.outer) (hjob : m.job = .answer v) (ht : l.Shows m t)
    (hover : ¬ l.Over m) : l.Phase R m.step (ts ++ [t]) := by
  have hsite := ht.awaits.ip_eq ⟨p, hp, hk⟩
  have hlt := l.asked_lt.trans l.decided_lt
  obtain ⟨n, hstep⟩ := step_of_answer hp hk hjob
  rw [hstep]
  cases t with
  | tells v' =>
    obtain rfl : v = v' := Job.answer.inj (hjob.symm.trans ht.1)
    cases he with
    | condition =>
      by_cases hv : ∃ b, v = .bool b
      · obtain ⟨b, rfl⟩ := hv
        exact .busy (.executes n (.tests b hroom))
      · exact absurd (.inr (.inr (.answer ht fun b hb => hv ⟨b, hb⟩))) hover
    | body => exact absurd hsite hlt.ne
  | ran =>
    cases he with
    | condition => exact absurd hsite hlt.ne'
    | body => exact .busy (.executes n (.discards v))
  | asks | runs | replays => cases hjob.symm.trans ht.1

/-- A step at which it is the turn of the loop to do something. -/
theorem Phase.turn (hr : l.Runs base limit m ran) (hover : ¬ l.Over m) (ht : l.Shows m t)
    (h : l.Phase (l.Room base limit) m ts) : l.Phase (l.Room base limit) m.step (ts ++ [t]) ∨
      ts ++ [t] = l.round ∧ l.Phase (l.Room base limit) m.step [] := by
  have hlt := l.asked_lt.trans l.decided_lt
  cases h with
  | @busy r hb =>
    cases r with
    | succ r => exact absurd ht ((Busy.quiet hb).1 t)
    | zero =>
      have hsite := ht.awaits
      obtain ⟨w, job, k⟩ := m
      have hb : l.Busy _ w.heap.shell ts 0 job k := hb
      cases hb with
      | executes n ho => cases ho
      | asks n =>
        replace hsite : l.site t = asked := hsite.ip_eq ⟨_, ⟨n, rfl⟩, rfl⟩
        cases t with
        | asks => exact .inl (.of_evaluate .condition hr.stands)
        | runs => exact absurd hsite hlt.ne'
        | tells _ | replays => cases ht.1
        | ran =>
          obtain ⟨⟨v, hv⟩, -⟩ := ht
          cases hv
      | runs n =>
        replace hsite : l.site t = l.evaluated := hsite.ip_eq ⟨_, ⟨n, rfl⟩, rfl⟩
        cases t with
        | runs => exact .inl (.of_evaluate .body hr.stands)
        | asks => exact absurd hsite hlt.ne
        | tells _ | replays => cases ht.1
        | ran =>
          obtain ⟨⟨v, hv⟩, -⟩ := ht
          cases hv
      | replays n =>
        cases t with
        | replays => exact .inr ⟨rfl, .busy (.executes n .starts)⟩
        | asks | tells _ | runs => cases ht.1
        | ran =>
          obtain ⟨⟨v, hv⟩, -⟩ := ht
          cases hv
      | answers _ => exact absurd rfl hsite.ne_outer
  | @evaluates ip n he htops hroom =>
    have hk := ht.awaits.pending htops.suffix
    have hsite := ht.awaits.ip_eq ⟨_, ⟨n, rfl⟩, hk⟩
    rcases ht.split with ⟨v, hv⟩ | ⟨-, ⟨b, hb⟩ | ⟨hreplayed, -⟩⟩
    · refine .inl (.of_answer he (hroom.resolve_right ?_) ⟨n, rfl⟩ hk hv ht hover)
      rintro ⟨⟨f, hf⟩, -⟩
      cases hv.symm.trans hf
    · cases htops with
      | executes hjob _ => cases hb.symm.trans hjob
      | waits _ hk' => exact absurd hk (Iteration.ne_of_suffix hk')
      | ends ho _ =>
        rw [hb] at ho
        cases ho
    · exact absurd (hsite.symm.trans hreplayed) he.lt.ne
  | @reports ip n he hk hroom =>
    replace hk := ht.awaits.pending hk
    rcases ht.split with ⟨v, hv⟩ | ⟨⟨n', hk'⟩, -⟩
    · exact .inl (.of_answer he hroom ⟨n, rfl⟩ hk hv ht hover)
    · cases hk.symm.trans hk'
  | left _ hl _ => exact absurd (.inr (.inl hl)) hover

theorem Busy.not_consults (hb : l.Working R ts r m) (hover : ¬ l.Over m) (k : List Pending) :
    ¬ m.Consults k := by
  obtain ⟨w, job, k'⟩ := m
  have hb : l.Busy R w.heap.shell ts r job k' := hb
  cases hb with
  | goesOn | unwinds | replays => exact Machine.not_consults rfl rfl k
  | answers _ => exact absurd (.inl ⟨.nil, rfl, rfl⟩) hover
  | _ => rintro ⟨⟩

/-- What hosts do meanwhile. -/
theorem Phase.meanwhile (hover : ¬ l.Over m) (hn : m.Next m') (hne : m' ≠ m.step)
    (h : l.Phase R m ts) : l.Phase R m' ts := by
  have hidle := (h.present hover).outcome
  cases h with
  | @busy r hb =>
    obtain ⟨w', hw', rfl⟩ := hn.prepared hne hidle (Busy.not_consults hb hover)
    obtain ⟨classes, codes, hstage⟩ := hw'.stage
    have hshell : w'.heap.shell = m.world.heap.shell := congrArg Stage.heap hstage
    refine .busy (r := r) ?_
    show l.Busy R w'.heap.shell ts r m.job m.pending
    rw [hshell]
    exact hb
  | @evaluates ip n he htops hroom =>
    by_cases hend : m.job.isOutcome ∧ m.pending = .sender ⟨l.code, l.frame, ip, [], n⟩ :: l.outer
    · obtain ⟨ho, hk⟩ := hend
      obtain ⟨w', -, rfl⟩ := hn.prepared hne hidle (Machine.not_consults ho hk)
      exact .evaluates n he (.ends ho hk) hroom
    · refine .evaluates n he (htops.meanwhile hn hne fun ho hk => hend ⟨ho, hk⟩) (.inl ?_)
      refine hroom.resolve_right ?_
      rintro ⟨⟨f, hf⟩, hk⟩
      refine hend ⟨?_, hk⟩
      rw [hf]
      rfl
  | reports n he hk hroom => exact .reports n he (hn.keeps hne nofun hk) hroom
  | left _ hl _ => exact absurd (.inr (.inl hl)) hover

/-! ### All turns -/

/-- Where a machine is with a loop, after turns of which some are of rounds that are done. -/
def Progress (l : Repetition) (base limit : Nat) (ts : List Turn) (m : Machine) : Prop :=
  ∃ k part ran, l.Runs base limit m ran ∧ ts = l.rounds k ++ part ∧
    l.Phase (l.Room base limit) m part

theorem Course.progress (hc : l.Course m ts m') (h : l.Progress base limit [] m) :
    l.Progress base limit ts m' := by
  induction hc with
  | begins => exact h
  | @shows m' ts t _ hover ht ih =>
    obtain ⟨k, part, ran, hr, rfl, hphase⟩ := ih
    obtain ⟨ran', hr'⟩ := hr.step (hphase.present hover)
    rcases hphase.turn hr hover ht with hphase | ⟨hround, hphase⟩
    · exact ⟨k, part ++ [t], ran', hr', List.append_assoc _ _ _, hphase⟩
    · refine ⟨k + 1, [], ran', hr', ?_, hphase⟩
      rw [List.append_assoc, hround, rounds_succ, List.append_nil]
  | steps _ hover hquiet ih =>
    obtain ⟨k, part, ran, hr, rfl, hphase⟩ := ih
    obtain ⟨ran', hr'⟩ := hr.step (hphase.present hover)
    exact ⟨k, part, ran', hr', rfl, hphase.step hr hover hquiet⟩
  | meanwhile _ hover hn hne hi ih =>
    obtain ⟨k, part, ran, hr, rfl, hphase⟩ := ih
    obtain ⟨ran', hr'⟩ := hr.next (hphase.present hover) hn hi
    exact ⟨k, part, ran', hr', rfl, hphase.meanwhile hover hn hne⟩

/-- The activation that goes on by itself comes to the next turn. -/
theorem Busy.soon (hr : l.Runs base limit m ran) (hb : l.Working (l.Room base limit) ts r m) :
    l.Soon r m := by
  induction r using Nat.strong_induction_on generalizing m ran with
  | h r ih =>
    cases r with
    | zero => exact ⟨0, le_rfl, .begins, Busy.arrives hb⟩
    | succ r =>
      obtain ⟨hquiet, hover⟩ := Busy.quiet hb
      obtain ⟨r', hle, hb'⟩ := Busy.step hb id hr
      obtain ⟨ran', hr'⟩ := hr.step (Phase.present (.busy hb) hover)
      obtain ⟨j, hj, hc, hsoon⟩ := ih r' (Nat.lt_succ_of_le hle) hr' hb'
      have hfirst : l.Course m [] m.step := .steps .begins hover hquiet
      exact ⟨j + 1, Nat.succ_le_succ (hj.trans hle), hfirst.append hc, hsoon⟩

theorem Busy.rank_le {job : Job} {k : List Pending} (hb : l.Busy R h ts r job k) : r ≤ 10 := by
  have herrand : ∀ q, (l.errand q).rank ≤ 6 := by
    rintro (_ | _ | _ | _)
    · exact Nat.zero_le 6
    · exact le_rfl
    · exact Nat.zero_le 6
    · exact Nat.zero_le 6
  cases hb with
  | executes n ho =>
    cases ho with
    | sends q _ =>
      have := herrand q
      omega
    | _ => decide
  | looks n q _ | calls n q _ _ _ =>
    have := herrand q
    omega
  | _ => decide

/-- A loop comes to its value when nothing is left to do. -/
theorem Busy.of_answers {v : Value} (hb : l.Working R ts r m) (ha : l.Answers m v) :
    v = .nil ∧ ts = [.asks, .tells (.bool !l.on)] ∧ l.Ended m.world.heap.shell := by
  obtain ⟨w, job, k⟩ := m
  obtain rfl : job = .answer v := ha.1
  obtain rfl : k = l.outer := ha.2
  have hb : l.Busy R w.heap.shell ts r (.answer v) l.outer := hb
  generalize hk : l.outer = k at hb
  cases hb with
  | answers hended => exact ⟨rfl, rfl, hended⟩
  | goesOn n => exact absurd hk.symm (Iteration.ne_of_suffix List.suffix_rfl)

namespace Phase

/-- Nothing waits on top of what waits for the loop when it has come to a value. -/
theorem answers {v : Value} (h : l.Phase R m ts) (ha : l.Answers m v) :
    v = .nil ∧ ts = [.asks, .tells (.bool !l.on)] ∧ l.Ended m.world.heap.shell := by
  cases h with
  | busy hb => exact Busy.of_answers hb ha
  | evaluates n _ htops _ => exact absurd ha.2 (Iteration.ne_of_suffix htops.suffix)
  | reports n _ hk _ => exact absurd ha.2 (Iteration.ne_of_suffix hk)
  | left _ hl _ =>
    obtain ⟨⟨u, hu⟩, -⟩ := hl
    cases ha.1.symm.trans hu

theorem ended (h : l.Phase R m ts) (hl : l.Left m) : l.Ended m.world.heap.shell := by
  obtain ⟨⟨u, hjob⟩, hk⟩ := hl
  cases h with
  | busy hb =>
    obtain ⟨w, job, k⟩ := m
    obtain rfl : job = .unwind u := hjob
    obtain rfl : k = l.outer := hk
    have hb : l.Busy R w.heap.shell ts _ (.unwind u) l.outer := hb
    generalize hk : l.outer = k at hb
    cases hb with
    | unwinds n | replays n => exact absurd hk.symm (Iteration.ne_of_suffix List.suffix_rfl)
  | evaluates n _ htops _ => exact absurd hk (Iteration.ne_of_suffix htops.suffix)
  | reports n _ hk' _ => exact absurd hk (Iteration.ne_of_suffix hk')
  | left _ _ hended => exact hended

/-- An unwind that one of the blocks comes to goes on as it is. -/
theorem unwinds {u : Unwind} (ho : m.Ordinary ran) (h : l.Phase R m ts) (hjob : m.job = .unwind u)
    (hk : m.pending = p :: l.outer) (hsettles : ¬ p.Settles u)
    (hne : ∀ v, u ≠ .nonLocal (m.world.heap.frame l.frame).activation v) :
    m.step.job = .unwind u ∧ m.step.pending = l.outer := by
  have hgoes : ∀ {ip}, l.Waits p ip → u.passesOn ∨ (∃ a, p = .reporter a) →
      m.step.job = .unwind u ∧ m.step.pending = l.outer := fun hp hu =>
    have h := Repetition.left_of_ending ho hp hk hjob hu hne
    ⟨h.1, h.2.1⟩
  cases h with
  | busy hb =>
    obtain ⟨w, job, k⟩ := m
    obtain rfl : job = .unwind u := hjob
    obtain rfl : k = p :: l.outer := hk
    have hb : l.Busy R w.heap.shell ts _ (.unwind u) (p :: l.outer) := hb
    cases hb with
    | unwinds n => exact absurd rfl (hne .nil)
    | replays n => exact absurd trivial hsettles
  | evaluates n _ htops _ =>
    obtain rfl := top_eq htops.suffix hk
    refine hgoes ⟨n, rfl⟩ (.inl ?_)
    cases u with
    | nonLocal _ _ | failed _ => rfl
    | restart | escaped _ _ => exact absurd trivial hsettles
  | reports n _ hk' _ =>
    obtain rfl := top_eq hk' hk
    exact hgoes ⟨n, rfl⟩ (.inr ⟨_, rfl⟩)
  | left _ hl _ => exact absurd (hk.symm.trans hl.2) (Iteration.ne_of_suffix List.suffix_rfl)

end Phase

theorem Evaluating.last {k : Nat} (he : l.Evaluating ts ip) :
    (l.rounds k ++ ts).getLast? = some .asks ∨ (l.rounds k ++ ts).getLast? = some .runs := by
  cases he with
  | condition => exact .inl (by simp)
  | body => exact .inr (by simp)

theorem Progress.law (h : l.Progress base limit ts m) : l.Law ts m := by
  obtain ⟨k, part, ran, hr, rfl, hphase⟩ := h
  refine ⟨prefix_whole hphase.ordered k, fun v ha => ?_, fun hover hasks hruns => ?_, fun hshows =>
    ?_,
    fun u p hjob hk => hphase.unwinds hr.ordinary hjob hk, fun hends hlt m' hl => ?_⟩
  · obtain ⟨rfl, rfl, -⟩ := hphase.answers ha
    exact ⟨rfl, k, rfl⟩
  · cases hphase with
    | busy hb =>
      obtain ⟨j, hj, hsoon⟩ := Busy.soon hr hb
      exact ⟨j, hj.trans (Busy.rank_le hb), hsoon⟩
    | evaluates n he _ _ | reports n he _ _ =>
      rcases he.last (k := k) with hlast | hlast
      · exact absurd hlast hasks
      · exact absurd hlast hruns
    | left _ hl _ => exact absurd (.inr (.inl hl)) hover
  · obtain ⟨hjob, n, hk⟩ := hshows
    obtain ⟨w, job, k⟩ := m
    obtain rfl : job = .unwind .restart := hjob
    obtain rfl : k = _ := hk
    refine ⟨_, n, rfl, ?_⟩
    rw [World.note_thread]
    rfl
  · have hended : l.Ended m.world.heap.shell := by
      rcases hends with ⟨v, ha⟩ | hl
      · exact (hphase.answers ha).2.2
      · exact hphase.ended hl
    exact hr.ordinary.ended hl hlt (hended hlt)

/-! ### The first step -/

/-- The activation starts, unless there is no room for it. -/
theorem Begins.starts (hb : l.Begins m) (R : Prop) : l.Lays ∧
    (l.frame < m.step.world.heap.frames.size →
      (m.step.world.heap.frame l.frame).arguments = #[.block l.condition, .block l.body]) ∧
        l.Phase R m.step [] := by
  cases hb with
  | @called w hcode hframe =>
    have hlays := lays_of_isCode hcode
    refine ⟨hlays, ?_⟩
    rcases Machine.step_method w [.block l.condition, .block l.body] l.outer
      hlays.argumentCount.symm with ⟨w', hstep, hstage⟩ | ⟨f, hstep, -⟩
    · rw [hstep, ← hframe]
      refine ⟨fun _ => ?_, .busy (.executes 0 .starts)⟩
      have hnew := w.heap.frame_newFrame_self (w.thread.activations + 1)
        [.block l.condition, .block l.body] l.code.program.locals.size none
      rw [← hframe] at hnew
      exact (congrArg (fun s : Stage => (s.heap.frame l.frame).arguments) hstage).trans
        (congrArg Frame.arguments hnew)
    · rw [hstep]
      have hlt : ¬ l.frame < w.heap.frames.size := hframe ▸ Nat.lt_irrefl _
      exact ⟨fun h => absurd h hlt, .left List.nil_prefix ⟨⟨_, rfl⟩, rfl⟩ fun h => absurd h hlt⟩
  | @restarted w a hcode hacode haframe harguments =>
    refine ⟨lays_of_isCode hcode, fun _ => ?_, ?_⟩
    · show ((World.note _ _).heap.frame l.frame).arguments = _
      rw [World.note_heap]
      exact harguments
    · have hb : l.Busy R (Machine.step ⟨w, .unwind .restart, .sender a :: l.outer⟩).world.heap.shell
          [] 4 (.execute ⟨l.code, l.frame, 0, [], a.backEdges⟩) l.outer := .executes _ .starts
      rw [← hacode, ← haframe] at hb
      exact .busy hb

theorem Begins.progress (hb : l.Begins m) (h : m.Ordinary ran) (hi : m.world.classes.Intact)
    (hs : m.step.Stands base limit) : l.Progress base limit [] m.step := by
  obtain ⟨hlays, harguments, hphase⟩ := hb.starts (l.Room base limit)
  have hintact : m.step.world.classes.Intact := h.settled.step_classes ▸ hi
  exact ⟨0, [], _, ⟨h.next (.step m), hlays, hintact, harguments, hs⟩, rfl, hphase⟩

theorem send_eq (hlookup : w.classes.lookup Core.block (LibraryLoop.selector l.on) =
    some (.method l.code)) :
    Machine.send (LibraryLoop.selector l.on) [.block l.condition, .block l.body] w =
      .invoke (.method l.code) [.block l.condition, .block l.body] := by
  have hfind : w.lookup (.block l.condition) (LibraryLoop.selector l.on) = some (.method l.code) :=
    hlookup
  rw [Machine.send, show argument _ 0 = Value.block l.condition from rfl, hfind]

/-- Whatever the message is sent by, it begins a loop, at once or with the next step. -/
theorem Begins.of_fulfils {job : Job} (hcode : LibraryLoop.IsCode l.on l.inlining l.code)
    (hlookup : w.classes.lookup Core.block (LibraryLoop.selector l.on) = some (.method l.code))
    (hframe : l.frame = w.heap.frames.size)
    (hjob : w.Fulfils (LibraryLoop.selector l.on) [.block l.condition, .block l.body] job) :
    l.Begins ⟨w, job, l.outer⟩ ∨ l.Begins (Machine.step ⟨w, job, l.outer⟩) := by
  cases hjob with
  | found =>
    rw [send_eq hlookup]
    exact .inl (.called hcode hframe)
  | lookup =>
    refine .inr ?_
    rw [Machine.step, send_eq hlookup]
    exact .called hcode hframe
  | shortcut hp _ _ => cases hp.symm.trans hlookup

end Repetition

/-! ### Loops over a block that answers true -/

namespace Repetition

variable {l : Repetition} {m m' : Machine} {t : Turn} {ts : List Turn} {base limit : Nat}

/-- After these turns of a round the activation goes on by itself, to this turn. -/
inductive Free (l : Repetition) : List Turn → Turn → Prop
  | starts : Free l [] .asks
  | told : Free l [.asks, .tells (.bool l.on)] .runs
  | ran : Free l [.asks, .tells (.bool l.on), .runs, .ran] .replays

theorem Free.prefix_round {part : List Turn} (hf : l.Free part t) : part ++ [t] <+: l.round := by
  cases hf with
  | starts => exact ⟨[.tells (.bool l.on), .runs, .ran, .replays], rfl⟩
  | told => exact ⟨[.ran, .replays], rfl⟩
  | ran => exact List.prefix_rfl

theorem rounds_getLast? (l : Repetition) (k : Nat) :
    (l.rounds k).getLast? = none ∨ (l.rounds k).getLast? = some .replays := by
  cases k with
  | zero => exact .inl rfl
  | succ k =>
    right
    rw [rounds_succ, List.getLast?_append]
    rfl

theorem Free.getLast? {part : List Turn} (hf : l.Free part t) (k : Nat) :
    (l.rounds k ++ part).getLast? ≠ some .asks ∧ (l.rounds k ++ part).getLast? ≠ some .runs := by
  cases hf with
  | starts =>
    rw [List.append_nil]
    rcases l.rounds_getLast? k with hlast | hlast <;> simp [hlast]
  | told | ran => simp [List.getLast?_append]

/-- The next turn of a round is no other one. -/
theorem Free.unique {part : List Turn} {t' : Turn} {k k' : Nat} (hf : l.Free part t)
    (h : l.rounds k ++ part ++ [t'] <+: l.whole k') : t' = t := by
  induction k generalizing k' with
  | zero =>
    have h : part ++ [t'] <+: l.whole k' := h
    cases k' with
    | zero =>
      cases hf with
      | starts => exact (List.cons_prefix_cons.1 h).1
      | told | ran =>
        have hlength := h.length_le
        simp [whole, rounds] at hlength
    | succ k' =>
      have hround : part ++ [t] <+: l.whole (k' + 1) :=
        hf.prefix_round.trans ⟨l.whole k', (List.append_assoc _ _ _).symm⟩
      have heq := (List.prefix_of_prefix_length_le h hround (by simp)).eq_of_length (by simp)
      exact List.singleton_inj.1 (List.append_cancel_left heq)
  | succ k ih =>
    cases k' with
    | zero =>
      have hlength := h.length_le
      simp [whole, rounds, round, Nat.add_mul] at hlength
      omega
    | succ k' => exact ih ((List.prefix_append_right_inj l.round).1 (by
        simpa [whole, rounds, List.replicate_succ] using h))

/-- A machine has come from another one by steps of its own, and these were the turns of the
    loop. -/
structure Goes (l : Repetition) (m : Machine) (ts : List Turn) (m' : Machine) : Prop where
  course : l.Course m ts m'
  steps : ∃ n, Machine.step^[n] m = m'

theorem Goes.append (h : l.Goes m ts m') {n : Nat} {ts' : List Turn}
    (hc : l.Course m' ts' (Machine.step^[n] m')) :
    l.Goes m (ts ++ ts') (Machine.step^[n] m') := by
  obtain ⟨j, hj⟩ := h.steps
  refine ⟨h.course.append hc, n + j, ?_⟩
  rw [Function.iterate_add_apply, hj]

theorem Goes.turn (h : l.Goes m ts m') (hover : ¬ l.Over m') (ht : l.Shows m' t) :
    l.Goes m (ts ++ [t]) m'.step :=
  h.append (n := 1) (Course.begins.shows hover ht)

/-- The body has come to an answer: that is no end. -/
theorem Shows.ran_not_over (ht : l.Shows m .ran) : ¬ l.Over m := by
  obtain ⟨⟨v, hv⟩, hawaits⟩ := ht
  rintro (⟨v', ha⟩ | ⟨-, hk⟩ | hs)
  · exact hawaits.ne_outer ha.2
  · exact hawaits.ne_outer hk
  · cases hs with
    | answer ht' _ =>
      exact (l.asked_lt.trans l.decided_lt).ne (ht'.awaits.ip_eq hawaits)
    | restart hjob _ | returns hjob _ => cases hv.symm.trans hjob

/-- The answer of a block is seen, and the activation goes on. -/
theorem executes_of_shows (ht : l.Shows m t) {v : Value} (hjob : m.job = .answer v) :
    ∃ a, m.step.job = .execute a := by
  obtain ⟨p, hp, hk⟩ := ht.awaits
  obtain ⟨n, hstep⟩ := step_of_answer hp hk hjob
  exact ⟨_, congrArg Machine.job hstep⟩

/-- The block is evaluated, as the condition or as the body. -/
theorem evaluates_true {b : BlockRef} (ht : l.Shows m t) (hjob : m.job = .evaluate b [])
    (hsends : l.Sends m (l.site t)) (hs : m.Stands base limit) (hroom : l.Room base limit)
    (hb : m.world.heap.Affirms b) : l.Course m [t] (Machine.step^[3] m) ∧
      (Machine.step^[3] m).job = .answer (.bool true) ∧
        l.Sends (Machine.step^[3] m) (l.site t) := by
  have hover : ¬ l.Over m := fun ho => by
    have houtcome := ho.isOutcome
    rw [hjob] at houtcome
    cases houtcome
  obtain ⟨n, hk⟩ := hsends
  obtain ⟨code, hb, hcode⟩ := hb
  obtain ⟨w, job, k⟩ := m
  obtain rfl : job = .evaluate b [] := hjob
  obtain rfl : k = .sender ⟨l.code, l.frame, l.site t, [], n⟩ :: l.outer := hk
  have hb : w.heap.closure b = ⟨code, none⟩ := hb
  rcases Machine.step_evaluate w b [] (.sender ⟨l.code, l.frame, l.site t, [], n⟩ :: l.outer)
    with ⟨w₁, hstep₁, -⟩ | ⟨f, -, hfull⟩
  · rw [hb] at hstep₁
    have hpush : code.Reads 0 .pushConstant [0] := hcode.reads rfl
    have hreturn : code.Reads 2 .returnLocal [] := hcode.reads rfl
    have hstep₂ := Machine.step_pushConstant (w := w₁) (f := w.heap.frames.size) (r := []) (n := 0)
      (k := .sender ⟨l.code, l.frame, l.site t, [], n⟩ :: l.outer) hpush (hcode.value 0 rfl)
    obtain ⟨w₃, hstep₃⟩ := Machine.step_returnLocal (w := w₁) (f := w.heap.frames.size)
      (v := .bool true) (r := []) (n := 0)
      (k := .sender ⟨l.code, l.frame, l.site t, [], n⟩ :: l.outer) hreturn
    have hc₁ := Course.begins.shows hover ht
    rw [hstep₁] at hc₁
    obtain ⟨hquiet₁, hover₁⟩ := quiet_of_execute (l := l) (m := ⟨w₁, _, _⟩) rfl
    have hc₂ := hc₁.steps hover₁ hquiet₁
    rw [Activation.start, hstep₂] at hc₂
    obtain ⟨hquiet₂, hover₂⟩ := quiet_of_execute (l := l) (m := ⟨w₁, _, _⟩) rfl
    have hc₃ := hc₂.steps hover₂ hquiet₂
    have hthree : Machine.step^[3] ⟨w, .evaluate b [],
        .sender ⟨l.code, l.frame, l.site t, [], n⟩ :: l.outer⟩ =
          ⟨w₃, .answer (.bool true), .sender ⟨l.code, l.frame, l.site t, [], n⟩ :: l.outer⟩ := by
      rw [Function.iterate_succ_apply, hstep₁, Activation.start, Function.iterate_succ_apply,
        hstep₂, Function.iterate_one, hstep₃]
    rw [hstep₃] at hc₃
    rw [hthree]
    exact ⟨hc₃, rfl, n, rfl⟩
  · refine absurd ((room_iff ⟨n, rfl⟩ rfl hs).1 hroom) (Nat.not_lt_of_le (hfull ?_))
    rw [hb, Closure.parameterCount, hcode.argumentCount]
    rfl

/-- A loop with that block as its condition and as its body. -/
structure Affirmed (l : Repetition) (base limit : Nat) (m : Machine) : Prop where
  progress : l.Progress base limit [] m
  room : l.Room base limit
  same : l.body = l.condition
  block : m.world.heap.Affirms l.condition

namespace Affirmed

variable {k : Nat} {part : List Turn}

/-- What the loop needs later on it has. -/
theorem keeps (h : l.Affirmed base limit m) (hg : l.Goes m ts m') :
    m'.Stands base limit ∧ m'.world.heap.Affirms l.condition := by
  obtain ⟨-, -, ran, hr, -⟩ := h.progress
  obtain ⟨n, rfl⟩ := hg.steps
  exact ⟨(hr.ordinary.iterate_keeps hr.stands n).1,
    hr.ordinary.affirms_iterate hr.stands h.block n⟩

/-- The activation goes on to the next turn. -/
theorem shows (h : l.Affirmed base limit m) (hg : l.Goes m (l.rounds k ++ part) m')
    (hover : ¬ l.Over m') (hf : l.Free part t) :
    ∃ m'', l.Goes m (l.rounds k ++ part) m'' ∧ ¬ l.Over m'' ∧ l.Shows m'' t := by
  have hlaw := (hg.course.progress h.progress).law
  obtain ⟨hasks, hruns⟩ := hf.getLast? k
  obtain ⟨j, -, hc, ⟨hover, t', ht⟩ | ha⟩ := hlaw.turns hover hasks hruns
  · have hg' := hg.append hc
    rw [List.append_nil] at hg'
    obtain ⟨k', hk'⟩ := ((hg'.turn hover ht).course.progress h.progress).law.ordered
    obtain rfl := hf.unique hk'
    exact ⟨_, hg', hover, ht⟩
  -- The value does not come before the condition has answered the other Boolean.
  · have hg' := hg.append hc
    rw [List.append_nil] at hg'
    obtain ⟨-, k', hk'⟩ := (hg'.course.progress h.progress).law.answers _ ha
    cases hf with
    | starts =>
      have hlast := congrArg List.getLast? hk'
      rw [List.append_nil, whole, List.getLast?_append] at hlast
      rcases l.rounds_getLast? k with hnone | hreplays
      · cases hnone.symm.trans hlast
      · cases hreplays.symm.trans hlast
    | told | ran =>
      have hlast := congrArg List.getLast? hk'
      simp [whole] at hlast

/-- The block answers true, and the activation goes on. -/
theorem told (h : l.Affirmed base limit m) (hg : l.Goes m ts m') (ht : l.Shows m' .asks) :
    ∃ a m'', l.Goes m (ts ++ [.asks, .tells (.bool true)]) m'' ∧ m''.job = .execute a := by
  obtain ⟨hs, hb⟩ := h.keeps hg
  obtain ⟨hc, hjob, hsends⟩ := evaluates_true ht ht.1 ht.2 hs h.room hb
  have ht' : l.Shows (Machine.step^[3] m') (.tells (.bool true)) := ⟨hjob, hsends.awaits⟩
  obtain ⟨a, ha⟩ := executes_of_shows ht' hjob
  refine ⟨a, _, ?_, ha⟩
  rw [← List.singleton_append, ← List.append_assoc]
  exact (hg.append hc).turn ht'.not_over ht'

theorem ran (h : l.Affirmed base limit m) (hg : l.Goes m ts m') (ht : l.Shows m' .runs) :
    ∃ a m'', l.Goes m (ts ++ [.runs, .ran]) m'' ∧ m''.job = .execute a := by
  obtain ⟨hs, hb⟩ := h.keeps hg
  obtain ⟨hc, hjob, hsends⟩ := evaluates_true ht ht.1 ht.2 hs h.room (h.same ▸ hb)
  have ht' : l.Shows (Machine.step^[3] m') .ran := ⟨⟨_, hjob⟩, hsends.awaits⟩
  obtain ⟨a, ha⟩ := executes_of_shows ht' hjob
  refine ⟨a, _, ?_, ha⟩
  rw [← List.singleton_append, ← List.append_assoc]
  exact (hg.append hc).turn ht'.ran_not_over ht'

/-- A loop that goes on while the block answers true goes round once more. -/
theorem round (h : l.Affirmed base limit m) (hon : l.on = true) (hg : l.Goes m (l.rounds k) m')
    (hexecutes : ∃ a, m'.job = .execute a) :
    ∃ a m'', l.Goes m (l.rounds (k + 1)) m'' ∧ m''.job = .execute a := by
  obtain ⟨a₁, ha₁⟩ := hexecutes
  rw [← List.append_nil (l.rounds k)] at hg
  obtain ⟨m₁, hg₁, -, ht₁⟩ := h.shows hg (quiet_of_execute ha₁).2 .starts
  rw [List.append_nil] at hg₁
  obtain ⟨a₂, m₂, hg₂, ha₂⟩ := h.told hg₁ ht₁
  rw [← hon] at hg₂
  obtain ⟨m₃, hg₃, -, ht₃⟩ := h.shows hg₂ (quiet_of_execute ha₂).2 .told
  obtain ⟨a₄, m₄, hg₄, ha₄⟩ := h.ran hg₃ ht₃
  rw [List.append_assoc] at hg₄
  obtain ⟨m₅, hg₅, hover₅, ht₅⟩ := h.shows hg₄ (quiet_of_execute ha₄).2 .ran
  have hg₆ := hg₅.turn hover₅ ht₅
  obtain ⟨w, n, hstep, -⟩ := (hg₅.course.progress h.progress).law.replays ht₅
  rw [List.append_assoc] at hg₆
  refine ⟨_, _, ?_, congrArg Machine.job hstep⟩
  rw [rounds_succ]
  exact hg₆

/-- So it goes round as often as one likes. -/
theorem rounds (h : l.Affirmed base limit m) (hon : l.on = true)
    (hexecutes : ∃ a, m.job = .execute a) (k : Nat) :
    ∃ a m', l.Goes m (l.rounds k) m' ∧ m'.job = .execute a := by
  induction k with
  | zero =>
    obtain ⟨a, ha⟩ := hexecutes
    exact ⟨a, m, ⟨.begins, 0, rfl⟩, ha⟩
  | succ k ih =>
    obtain ⟨a, m', hg, ha⟩ := ih
    exact h.round hon hg ⟨a, ha⟩

/-- A loop that goes on while the block answers false comes to its value at once. -/
theorem answers (h : l.Affirmed base limit m) (hon : l.on = false)
    (hexecutes : ∃ a, m.job = .execute a) :
    ∃ m', l.Goes m [.asks, .tells (.bool true)] m' ∧ l.Answers m' .nil := by
  obtain ⟨a, ha⟩ := hexecutes
  have hg : l.Goes m (l.rounds 0 ++ []) m := ⟨.begins, 0, rfl⟩
  obtain ⟨m₁, hg₁, -, ht₁⟩ := h.shows hg (quiet_of_execute ha).2 .starts
  obtain ⟨a₂, m₂, hg₂, ha₂⟩ := h.told hg₁ ht₁
  have hlaw := (hg₂.course.progress h.progress).law
  obtain ⟨j, -, hc, ⟨hover, t, ht⟩ | ha⟩ := hlaw.turns (quiet_of_execute ha₂).2 nofun nofun
  -- The loop has nothing left to do.
  · obtain ⟨k, hk⟩ := (((hg₂.append hc).turn hover ht).course.progress h.progress).law.ordered
    have hk : [.asks, .tells (.bool true), t] <+: l.whole k := hk
    cases k with
    | zero => exact absurd (show 3 ≤ 2 from hk.length_le) (by decide)
    | succ k =>
      obtain ⟨rest, hrest⟩ : ∃ rest, l.whole (k + 1) = .asks :: .tells (.bool l.on) :: rest :=
        ⟨_, rfl⟩
      rw [hrest, hon] at hk
      obtain ⟨-, hk⟩ := List.cons_prefix_cons.1 hk
      cases (List.cons_prefix_cons.1 hk).1
  · exact ⟨_, hg₂.append hc, ha⟩

end Affirmed

end Repetition

/-! ### The law -/

/-- Whatever the blocks of a loop that starts again do, and whatever hosts do meanwhile but for the
    messages that it sends, it obeys its law. -/
theorem Machine.Ordinary.repeats {m m' : Machine} {ran : FrameRef → Code} {l : Repetition}
    {ts : List Repetition.Turn} (h : m.Ordinary ran) (hb : l.Begins m)
    (hi : m.world.classes.Intact) (hc : l.Course m.step ts m') : l.Law ts m' := by
  obtain ⟨base, limit, hs⟩ := (h.next (.step m)).stands
  exact (hc.progress (hb.progress h hi hs)).law

/-- A host sends the message of a loop to the block, with the block as its body. -/
theorem Machine.Ordinary.hosts_loop (on : Bool) : ∃ m ran, ∃ l : Repetition, ∃ base limit,
    m.Ordinary ran ∧ l.on = on ∧ l.Begins m ∧ m.world.classes.Intact ∧
      l.Affirmed base limit m.step ∧ ∃ a, m.step.job = .execute a := by
  obtain ⟨w, ran, b, h, hclasses, hstands, hb⟩ := hosts_block
  obtain ⟨method, hown, hmethod⟩ :=
    LibraryLoop.exists_isCode on Settings.standard .standard .kept false
  have hi := World.boot_intact .standard .standard .kept false
  rw [← hclasses] at hown hi
  have hcovers : w.Covers [.block b, .block b] := by
    simp [World.Covers, Value.Within]
  -- The message is looked up, and the method is called.
  let l : Repetition := ⟨on, Settings.standard.inlining, method, w.heap.frames.size, b, b, []⟩
  let s : Selector := LibraryLoop.selector on
  have hsend := Repetition.send_eq (l := l) (ClassTable.lookup_of_own? hown)
  have hn : Next ⟨w, .answer (.block b), []⟩ ⟨w, .send s [.block b, .block b], []⟩ :=
    .request (by rintro ⟨⟩) hcovers
  have hn' := Next.step (⟨w, .send s [.block b, .block b], []⟩ : Machine)
  have hcalls : step ⟨w, .send s [.block b, .block b], []⟩ =
      ⟨w, .invoke (.method method) [.block b, .block b], []⟩ := by
    rw [step, show Machine.send s _ w = _ from hsend]
  rw [hcalls] at hn'
  have h := (h.next hn).next hn'
  have hbegins : l.Begins ⟨w, .invoke (.method method) [.block b, .block b], []⟩ :=
    .called hmethod rfl
  have hcalled : Stands ⟨w, .invoke (.method method) [.block b, .block b], []⟩ 0
    Settings.standard.maxDepth := ⟨hstands.depth, hstands.limit⟩
  have hstarts : ∃ a, (step ⟨w, .invoke (.method method) [.block b, .block b], []⟩).job =
      .execute a := by
    have hcount := (Repetition.lays_of_isCode (l := l) hmethod).argumentCount
    rcases step_method w [.block b, .block b] [] hcount.symm with
      ⟨w', hstep, -⟩ | ⟨f, -, hfull⟩
    · exact ⟨_, congrArg Machine.job hstep⟩
    · have hdepth : w.thread.depth = 0 := hstands.depth
      have hlimit : w.settings.maxDepth = Settings.standard.maxDepth := hstands.limit
      rw [hdepth, hlimit] at hfull
      exact absurd hfull (by decide)
  obtain ⟨hs, -, -⟩ := h.iterate_keeps hcalled 1
  have hblock := h.affirms_iterate hcalled hb 1
  exact ⟨_, _, l, 0, Settings.standard.maxDepth, h, rfl, hbegins, hi,
    ⟨hbegins.progress h hi hs, show 0 + 0 + 1 < Settings.standard.maxDepth by decide, rfl, hblock⟩,
    hstarts⟩

/-- A host sends `whileTrue:` to a block that answers true, with the block as the body: the loop
    goes round as often as one likes. `whileFalse:` comes to nil when the block has been evaluated
    once. -/
theorem Machine.Ordinary.repeats_affirming :
    (∃ m ran, ∃ l : Repetition, m.Ordinary ran ∧ l.Begins m ∧ m.world.classes.Intact ∧
      l.on = true ∧ ∀ k, ∃ m', l.Course m.step (l.rounds k) m' ∧ l.Law (l.rounds k) m') ∧
    ∃ m ran, ∃ l : Repetition, ∃ m', m.Ordinary ran ∧ l.Begins m ∧ m.world.classes.Intact ∧
      l.on = false ∧ l.Course m.step [.asks, .tells (.bool true)] m' ∧
        l.Law [.asks, .tells (.bool true)] m' ∧ l.Answers m' .nil := by
  constructor
  · obtain ⟨m, ran, l, base, limit, h, hon, hbegins, hi, haffirmed, hexecutes⟩ := hosts_loop true
    refine ⟨m, ran, l, h, hbegins, hi, hon, fun k => ?_⟩
    obtain ⟨a, m', hg, -⟩ := haffirmed.rounds hon hexecutes k
    exact ⟨m', hg.course, h.repeats hbegins hi hg.course⟩
  · obtain ⟨m, ran, l, base, limit, h, hon, hbegins, hi, haffirmed, hexecutes⟩ := hosts_loop false
    obtain ⟨m', hg, ha⟩ := haffirmed.answers hon hexecutes
    exact ⟨m, ran, l, m', h, hbegins, hi, hon, hg.course, h.repeats hbegins hi hg.course, ha⟩

end Parley
