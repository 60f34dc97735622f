import Mathlib
import Parley.Proofs.Chains
import Parley.Proofs.Ensembles

/-!
# Call sites over whole runs

What an instruction is specialized to changes only when an activation executes it
(`Machine.Specializes`): not when a host compiles or installs a method or changes a layout, and not
when it is another machine's turn. So a call site that has a dispatch chain has one for good, which
only messages change; and as long as all machines on a world allow `n` entries, no chain ever has
more, nor two for the same receivers (`Ensemble.Chained`).
-/

namespace Parley

variable {s : Stock} {w w' : World} {m m' : Machine} {n : Nat}

/-! ### Slots -/

namespace World

/-- Hosts specialize nothing. -/
theorem Change.sites (hc : w.Change w') : w'.sites = w.sites :=
  congrArg Ledger.sites hc.ledger

/-- The chains that hosts hold on to are new, or were there. -/
theorem Change.held (hc : w.Change w') {c : Chain} (h : .chain c ∈ w'.held) :
    (∃ selector, c = .new selector) ∨ .chain c ∈ w.held := by
  cases hc with
  | addField k name =>
    rw [show (w.addField k name).2.held =
      _ from congrArg Ledger.held (w.addField_ledger k name)] at h
    exact .inr h
  | @compile k m inlining _ =>
    rw [show (w.compile k m inlining).2.held = _ from
      congrArg Ledger.held (w.compile_ledger k m inlining)] at h
    exact .inr h
  | hold hx => exact hx _ h
  | turn _ _ _ _ hd _ _ => exact .inr (hd ▸ h)
  | _ => exact .inr h

end World

namespace Machine

/-- Only an instruction that is executed is specialized. -/
def Specializes (m m' : Machine) : Prop :=
  ∀ l, m'.world.sites[l]? = m.world.sites[l]? ∨ ∃ a op, m.job = .execute a ∧
    a.code.program.tape.opcode? a.ip = some op ∧ l = (a.code.id, a.ip) ∧
      Site.Ages m.world.settings.cacheSize a.code a.ip m.world.sites[l]? m'.world.sites[l]?

theorem specializes_of_eq (h : m'.world.sites = m.world.sites) : m.Specializes m' :=
  fun _ => .inl (by rw [h])

theorem Goes.specializes (h : m.Goes m') : m.Specializes m' := by
  cases h with
  | stays hledger _ _ _ => exact specializes_of_eq (congrArg Ledger.sites hledger)
  | @asks w w' a b job op k hop _ _ hq =>
    intro l
    by_cases hl : l = (a.code.id, a.ip)
    · exact .inr ⟨a, op, rfl, hop, hl, hl ▸ hq.ages⟩
    · exact .inl (hq.others l hl)
  | starts k _ _ hledger => exact specializes_of_eq (congrArg Ledger.sites hledger)
  | refuses k _ _ => exact specializes_of_eq rfl
  | ends _ _ hledger => exact specializes_of_eq (congrArg Ledger.sites hledger)

theorem Goes.held (h : m.Goes m') : m'.world.held = m.world.held := by
  cases h with
  | stays hledger _ _ _ => exact congrArg Ledger.held hledger
  | asks k _ _ _ hq => exact congrArg Ledger.held hq.ledger
  | starts k _ _ hledger => exact congrArg Ledger.held hledger
  | refuses k _ _ => rfl
  | ends _ _ hledger => exact congrArg Ledger.held hledger

theorem Proceeds.specializes (hp : m.Proceeds m') (h : m.Sound s) : m.Specializes m' := by
  cases hp with
  | step => exact (step_goes h).specializes
  | change hc _ _ => exact specializes_of_eq hc.sites
  | request _ hr | consult _ hr _ => exact specializes_of_eq (congrArg Ledger.sites hr.ledger)
  | reply | refuse => exact specializes_of_eq rfl

/-- The chains that hosts hold on to are new, or were there, or are what a message made of one. -/
theorem Proceeds.held (hp : m.Proceeds m') (h : m.Sound s) {c : Chain}
    (hc : .chain c ∈ m'.world.held) : (∃ selector, c = .new selector) ∨
      ∃ c₀, .chain c₀ ∈ m.world.held ∧ c₀.History m.world.settings.cacheSize c := by
  have hbids : ∀ {r : Job × World}, m.world.Bids r → .chain c ∈ r.2.held →
      ∃ c₀, .chain c₀ ∈ m.world.held ∧ c₀.History m.world.settings.cacheSize c := by
    intro r hr hc
    cases hr with
    | request _ => exact ⟨c, hc, .refl⟩
    | @dispatch c₀ arguments hc₀ _ =>
      have hheld : (c₀.dispatch arguments m.world).2.2.held = m.world.held :=
        congrArg Premises.held (c₀.dispatch_rests arguments m.world).premises
      rw [dispatch] at hc
      rcases List.mem_cons.1 hc with heq | hc
      · obtain rfl := Held.chain.inj heq
        exact ⟨c₀, hc₀, Chain.History.dispatch c₀ arguments m.world⟩
      · exact ⟨c, hheld ▸ hc, .refl⟩
  cases hp with
  | step =>
    rw [(step_goes h).held] at hc
    exact .inr ⟨c, hc, .refl⟩
  | change hchange _ _ => exact (hchange.held hc).imp_right fun hc => ⟨c, hc, .refl⟩
  | request _ hr | consult _ hr _ => exact .inr (hbids hr hc)
  | reply | refuse => exact .inr ⟨c, hc, .refl⟩

end Machine

/-! ### Chains -/

namespace Site.Ages

variable {code : Code} {ip : Nat} {o o' : Option Site} {c : Chain}

/-- A chain is what messages have made of it. -/
theorem chain (h : Ages n code ip (some (.chain c)) o') :
    ∃ c', o' = some (.chain c') ∧ c.History n c' := by
  induction h with
  | refl => exact ⟨c, rfl, .refl⟩
  | tail _ hb ih =>
    obtain ⟨c', rfl, hc'⟩ := ih
    obtain ⟨site, rfl, hb⟩ := hb
    cases hb with
    | @dispatches w _ arguments hn =>
      exact ⟨_, rfl, hc'.trans (hn ▸ Chain.History.dispatch c' arguments w)⟩

theorem shaped (h : Ages n code ip o o') (ho : ∀ c, o = some (.chain c) → c.Shaped n) :
    ∀ c, o' = some (.chain c) → c.Shaped n := by
  induction h with
  | refl => exact ho
  | tail _ hb ih =>
    obtain ⟨site, rfl, hb⟩ := hb
    intro c' hc'
    cases hb with
    | opens _ | yields _ =>
      cases hc'
      exact Chain.new_shaped n _
    | @dispatches w c arguments hn =>
      cases hc'
      exact (hn ▸ Chain.History.dispatch c arguments w).shaped (ih c rfl)
    | _ => cases hc'

end Site.Ages

namespace Ensemble

variable {e e' : Ensemble}

/-- The chain of a call site, or one that a host holds on to. -/
inductive HasChain (e : Ensemble) (c : Chain) : Prop
  | site {l : Location} : e.machine.world.sites[l]? = some (.chain c) → HasChain e c
  | held : .chain c ∈ e.machine.world.held → HasChain e c

/-- On machines that allow a chain `n` entries. -/
abbrev Allows (n : Nat) (w : World) : Prop :=
  w.settings.cacheSize = n

theorem Live.shaped (h : Live (Allows n) e) : ∀ c, e.HasChain c → c.Shaped n := by
  induction h with
  | @start w hw _ =>
    rintro c (hsite | hheld)
    · rw [Ensemble.start, hw.sites, Std.HashMap.getElem?_empty] at hsite
      cases hsite
    · rw [Ensemble.start, hw.held] at hheld
      cases hheld
  | @next e e' h hn _ ih =>
    obtain ⟨s, hs⟩ := h.sound
    have hsize : e.machine.world.settings.cacheSize = n := h.holds
    cases hn with
    | proceeds hp =>
      rintro c (@⟨l, hsite⟩ | hheld)
      · rcases hp.specializes hs l with heq | ⟨a, op, -, -, -, hages⟩
        · exact ih c (.site (heq ▸ hsite))
        · rw [hsize] at hages
          exact hages.shaped (fun c hc => ih c (.site hc)) c hsite
      · rcases hp.held hs hheld with ⟨selector, rfl⟩ | ⟨c₀, hc₀, hhistory⟩
        · exact Chain.new_shaped n selector
        · exact (hsize ▸ hhistory).shaped (ih c₀ (.held hc₀))
    | yields i _ _ _ _ hsites hheld' _ _ _ =>
      rintro c (@⟨l, hsite⟩ | hheld)
      · exact ih c (.site (hsites ▸ hsite))
      · exact ih c (.held (hheld' ▸ hheld))

/-- A call site with a chain has one for good, which nothing but messages change. -/
theorem Live.lasts (h : Live (Allows n) e) (hl : Later (Allows n) e e') {l : Location} {c : Chain}
    (hc : e.machine.world.sites[l]? = some (.chain c)) :
    ∃ c', e'.machine.world.sites[l]? = some (.chain c') ∧ c.History n c' := by
  induction hl with
  | refl => exact ⟨c, hc, .refl⟩
  | tail hl hn ih =>
    obtain ⟨c', hc', hhistory⟩ := ih
    have h' := h.later hl
    obtain ⟨s, hs⟩ := h'.sound
    obtain ⟨hn, -⟩ := hn
    cases hn with
    | proceeds hp =>
      rcases hp.specializes hs l with heq | ⟨a, op, -, -, -, hages⟩
      · exact ⟨c', heq.trans hc', hhistory⟩
      · rw [hc', h'.holds] at hages
        obtain ⟨c'', hc'', hhistory'⟩ := hages.chain
        exact ⟨c'', hc'', hhistory.trans hhistory'⟩
    | yields i _ _ _ _ hsites _ _ _ _ => exact ⟨c', hsites.symm ▸ hc', hhistory⟩

/-- What holds of the dispatch chains of an ensemble whose machines allow them `n` entries. -/
structure Chained (n : Nat) (e : Ensemble) : Prop where
  shaped : ∀ c, e.HasChain c → c.Shaped n
  /-- At most one entry matches a receiver. -/
  matching : ∀ c, e.HasChain c → ∀ g, c.entries.countP (fun entry => entry.guard = g) ≤ 1
  /-- What hosts and other machines do meanwhile changes nothing. -/
  lasts : ∀ e', Later (Allows n) e e' → ∀ (l : Location) (c : Chain),
    e.machine.world.sites[l]? = some (.chain c) →
      ∃ c', e'.machine.world.sites[l]? = some (.chain c') ∧ c.History n c' ∧ c.Extends c'
  answers : ∀ c, e.HasChain c → ∀ arguments w, Allows n w → c.Answers n arguments w

/-- Whatever the programs are and whatever the hosts do, dispatch chains keep their shape. -/
theorem chained (h : Live (Allows n) e) : e.Chained n where
  shaped := h.shaped
  matching c hc := (h.shaped c hc).matching
  lasts _ hl _ _ hc := by
    obtain ⟨c', hc', hhistory⟩ := h.lasts hl hc
    exact ⟨c', hc', hhistory, hhistory.extends_⟩
  answers c hc arguments w hw := (h.shaped c hc).answers arguments w hw

/-- A method that asks nil whether it is nil, which nobody understands, up to the answer. -/
def asked : Ensemble :=
  ((start (.bare .standard .standard .kept false)).call
    { (default : Program Code) with
      tape := #[Opcode.pushNil.byte, (Opcode.send false).byte, 0]
      literals := #[.selector "isNil"]
      arguments := #[default] } [.nil]).step.step.step

theorem asked_live : Live (Allows 6) asked := by
  have hstart : Live (Allows 6) (start (.bare .standard .standard .kept false)) :=
    .start (.bare _ _ _ _) rfl
  refine (((hstart.call nofun (fun l hl => ?_) (fun v hv => ?_) rfl).step rfl).step rfl).step ?_
  · obtain rfl : l = .selector "isNil" := by simpa using hl
    trivial
  · rw [List.mem_singleton.1 hv]
    trivial
  · show asked.machine.world.settings.cacheSize = 6
    cbv

/-- The call site has a chain then, with one entry. -/
theorem sites_asked : asked.machine.world.sites[((0, 1) : Location)]? =
    some (.chain ⟨"isNil", .cached [⟨.ofClass Core.nil, 0, .notUnderstood⟩]⟩) := by
  cbv

theorem chained_asked : Live (Allows 6) asked ∧
    (∃ c, asked.machine.world.sites[((0, 1) : Location)]? = some (.chain c)) ∧
    asked.Chained 6 :=
  ⟨asked_live, ⟨_, sites_asked⟩, chained asked_live⟩

end Ensemble

end Parley
