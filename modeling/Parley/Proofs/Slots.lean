import Mathlib.Logic.Relation
import Parley.Proofs.Reachable
import Parley.Proofs.Outward

/-!
# What an execution does to its slot

What an instruction is specialized to changes only when the instruction is executed, and only in
certain ways (`Site.Becomes`). A read of a global finds its cell for good. A message is bound to a
shortcut first, or has a chain; a shortcut gives way to a chain that was never used; and a chain
becomes what messages make of it. A message to super is bound, and bound anew.

One execution may do several of these one after another (`Site.Ages`). Whatever it does, no other
instruction becomes anything else, nor do the other premises change (`World.Quickens`).

* `sendFrom_quickens`, `bindSuper_quickens`, `readGlobal_quickens`: the three kinds of instructions.
-/

namespace Parley

variable {s : Stock} {w w' : World} {code : Code} {ip : Nat} {selector : Selector}

/-! ### Jobs that fail mechanically -/

/-- Whether a job fails by a mechanical fault. -/
def Job.isMechanical : Job → Bool
  | .unwind (.failed f) => f.isMechanical
  | _ => false

theorem Job.isMechanical_of_plain {job : Job} (h : job.isPlain) : job.isMechanical = false := by
  cases job with
  | unwind u =>
    cases u with
    | failed f =>
      have h : f.isPlain := h
      exact (Fault.isPlain_iff.1 h).2
    | _ => rfl
  | _ => rfl

/-! ### Slots -/

namespace Site

/-- What the slot of an instruction may become in one go, on a machine that allows a chain `n`
    entries. -/
inductive Becomes (n : Nat) (code : Code) (ip : Nat) : Option Site → Site → Prop
  | finds {name : String} (cell : CellRef) :
      code.reads? ip = some name → Becomes n code ip none (.global cell)
  | binds {selector : Selector} (op : Shortcut) (cls : ClassRef) (epoch : Nat) :
      code.sends? ip = some (false, selector) →
        Becomes n code ip none (.eager op cls epoch selector.arity)
  | opens {selector : Selector} :
      code.sends? ip = some (false, selector) → Becomes n code ip none (.chain (.new selector))
  /-- A shortcut gives way to a chain that was never used. -/
  | yields {selector : Selector} {op : Shortcut} {cls : ClassRef} {epoch arity : Nat} :
      code.sends? ip = some (false, selector) →
        Becomes n code ip (some (.eager op cls epoch arity)) (.chain (.new selector))
  | dispatches {w : World} (c : Chain) (arguments : List Value) : w.settings.cacheSize = n →
      Becomes n code ip (some (.chain c)) (.chain (c.dispatch arguments w).2.1)
  | bindsSuper {selector : Selector} (target : Option Invokable) (epoch : Nat) :
      code.sends? ip = some (true, selector) → Becomes n code ip none (.super target epoch)
  | rebinds {target : Option Invokable} {epoch : Nat} (target' : Option Invokable) (epoch' : Nat) :
      Becomes n code ip (some (.super target epoch)) (.super target' epoch')

/-- What the slot of an instruction may become, one thing after another. -/
def Ages (n : Nat) (code : Code) (ip : Nat) : Option Site → Option Site → Prop :=
  Relation.ReflTransGen fun o o' => ∃ site, o' = some site ∧ Becomes n code ip o site

namespace Ages

variable {n : Nat} {o o' : Option Site}

theorem refl (o : Option Site) : Ages n code ip o o :=
  Relation.ReflTransGen.refl

theorem single {site : Site} (h : Becomes n code ip o site) : Ages n code ip o (some site) :=
  Relation.ReflTransGen.single ⟨site, rfl, h⟩

theorem trans {o'' : Option Site} (h : Ages n code ip o o') (h' : Ages n code ip o' o'') :
    Ages n code ip o o'' :=
  Relation.ReflTransGen.trans h h'

end Ages

end Site

/-! ### Executions -/

/-- What an execution of an instruction does: it does not fail mechanically, and of the premises
    nothing changes but the slot of the instruction. -/
structure World.Quickens (w : World) (code : Code) (ip : Nat) (r : Job × World) : Prop where
  job : r.1.isMechanical = false
  ages : Site.Ages w.settings.cacheSize code ip w.sites[(code.id, ip)]? r.2.sites[(code.id, ip)]?
  others : ∀ l ≠ (code.id, ip), r.2.sites[l]? = w.sites[l]?
  premises : r.2.premises = { w.premises with sites := r.2.sites }

namespace World.Quickens

theorem of_premises {r : Job × World} (hj : r.1.isMechanical = false)
    (hp : r.2.premises = w.premises) : w.Quickens code ip r := by
  have hsites := World.sites_of_premises hp
  refine ⟨hj, ?_, fun l _ => by rw [hsites], ?_⟩
  · rw [hsites]
    exact .refl _
  · rw [hp, hsites]
    rfl

theorem of_rests {r : Job × World} (h : w.Rests Job.isPlain r) : w.Quickens code ip r :=
  of_premises (Job.isMechanical_of_plain h.job) h.premises

/-- What comes first leaves the premises as they are, but for what the instruction becomes by it. -/
theorem trans {job : Job} {r : Job × World} (h : w.Quickens code ip (job, w'))
    (h' : w'.Quickens code ip r) : w.Quickens code ip r where
  job := h'.job
  ages := by
    have hsettings : w'.settings = w.settings := congrArg Premises.settings h.premises
    exact h.ages.trans (hsettings ▸ h'.ages)
  others l hl := (h'.others l hl).trans (h.others l hl)
  premises := by
    rw [h'.premises, h.premises]

theorem after {r : Job × World} (h : w'.Quickens code ip r) (hw : w'.premises = w.premises) :
    w.Quickens code ip r :=
  have h₀ : w.Quickens code ip (.hang, w') := of_premises rfl hw
  h₀.trans h

theorem specialize {job : Job} {site : Site} (hj : job.isMechanical = false)
    (ha : Site.Ages w.settings.cacheSize code ip w.sites[(code.id, ip)]? (some site)) :
    w.Quickens code ip (job, w.specialize (code.id, ip) site) where
  job := hj
  ages := by
    rw [World.specialize, Std.HashMap.getElem?_insert_self]
    exact ha
  others l hl := by
    rw [World.specialize, Std.HashMap.getElem?_insert, if_neg (by simpa using hl.symm)]
  premises := rfl

end World.Quickens

section Sends

variable (hsend : code.sends? ip = some (false, selector)) (arguments : List Value)

theorem throughChain_quickens {c : Chain}
    (ha : Site.Ages w.settings.cacheSize code ip w.sites[(code.id, ip)]? (some (.chain c))) :
    w.Quickens code ip (throughChain (code.id, ip) c arguments w) := by
  have hd := c.dispatch_rests arguments w
  rw [throughChain]
  refine (World.Quickens.of_rests hd).trans (.specialize (Job.isMechanical_of_plain hd.job) ?_)
  rw [World.settings_of_premises hd.premises, World.sites_of_premises hd.premises]
  exact ha.trans (.single (.dispatches c arguments rfl))

include hsend

theorem missShortcut_quickens (op : Shortcut) {op' : Shortcut} {cls : ClassRef}
    {epoch arity : Nat} (hsite : w.sites[(code.id, ip)]? = some (.eager op' cls epoch arity)) :
    w.Quickens code ip (missShortcut (code.id, ip) op selector arguments w) := by
  unfold missShortcut
  extract_lets w₁ w₂
  have hw₂ : w₂.premises = w.premises := World.note_premises _ _
  refine World.Quickens.after (throughChain_quickens arguments ?_) hw₂
  rw [World.sites_of_premises hw₂, hsite]
  exact .single (.yields hsend)

theorem throughSite_quickens {site : Site} (hsound : site.Sound s w.classes code ip)
    (hsite : w.sites[(code.id, ip)]? = some site) :
    w.Quickens code ip (throughSite (code.id, ip) site selector arguments w) := by
  unfold throughSite
  cases site with
  | chain c => exact throughChain_quickens arguments (hsite ▸ .refl _)
  | eager op cls epoch arity =>
    dsimp only
    split
    · split
      · rename_i done hdone
        exact .of_rests (Shortcut.apply?_rests hdone).plain
      · exact missShortcut_quickens hsend arguments op hsite
    · exact missShortcut_quickens hsend arguments op hsite
  -- An instruction that sends a message reads no global and is not to super.
  | global cell =>
    obtain ⟨name, hread⟩ := Option.isSome_iff_exists.1 hsound
    exact absurd ((Code.sends?_of_reads? hread).symm.trans hsend) (by simp)
  | super target epoch =>
    obtain ⟨selector', holder, hs, -⟩ := hsound
    exact absurd (hs.symm.trans hsend) (by simp)

theorem firstSite_becomes (n : Nat) (w : World) (receiver : Value) :
    Site.Becomes n code ip none (w.firstSite selector receiver) := by
  rw [World.firstSite]
  split
  · exact .binds _ _ _ hsend
  · exact .opens hsend

/-- A message that is not to super. -/
theorem sendFrom_quickens (h : w.Sound s) (hcode : .block code ∈ s.written) :
    w.Quickens code ip (sendFrom (code.id, ip) selector arguments w) := by
  rw [sendFrom]
  split
  · rename_i site hsite
    exact throughSite_quickens hsend arguments (h.site hcode hsite) hsite
  · rename_i hnone
    extract_lets site w₁
    have hw₁ : w₁.premises = w.premises := w.noteQuickened_premises _ _
    have hclasses : w₁.classes = w.classes := World.note_classes _ _
    have hsound : site.Sound s w₁.classes code ip := hclasses ▸ firstSite_sound hsend h _
    have hfirst : w₁.Quickens code ip (.hang, w₁.specialize (code.id, ip) site) := by
      refine .specialize rfl (.single ?_)
      rw [World.sites_of_premises hw₁, hnone]
      exact firstSite_becomes hsend _ w _
    exact (hfirst.trans (throughSite_quickens hsend arguments hsound
      Std.HashMap.getElem?_insert_self)).after hw₁

end Sends

/-! ### Messages to super -/

theorem superJob_isMechanical (target : Option Invokable) (s : Selector)
    (arguments : List Value) : (superJob target s arguments).isMechanical = false := by
  cases target <;> rfl

/-- A message to super that is not bound in this epoch. -/
theorem bindSuper_quickens (h : w.Sound s) (hcode : .block code ∈ s.written)
    (hsend : code.sends? ip = some (true, selector)) (arguments : List Value)
    (inProgress : List Node) :
    w.Quickens code ip (bindSuper (code.id, ip) code selector arguments inProgress w) := by
  rw [bindSuper]
  split
  · exact .of_premises rfl rfl
  · extract_lets target w₁
    have hw₁ : w₁.premises = w.premises := w.noteQuickened_premises _ _
    refine World.Quickens.after (.specialize (superJob_isMechanical _ _ _) (.single ?_)) hw₁
    rw [World.sites_of_premises hw₁]
    cases hsite : w.sites[(code.id, ip)]? with
    | none => exact .bindsSuper target _ hsend
    | some site =>
      have hsound := h.site hcode hsite
      cases site with
      | super target' epoch' => exact .rebinds target _
      -- An instruction that sends a message to super does nothing else.
      | chain c => exact absurd (hsound.1.symm.trans hsend) (by simp)
      | eager op cls epoch arity =>
        obtain ⟨selector', hs, -⟩ := hsound
        exact absurd (hs.symm.trans hsend) (by simp)
      | global cell =>
        obtain ⟨name, hread⟩ := Option.isSome_iff_exists.1 hsound
        exact absurd ((Code.sends?_of_reads? hread).symm.trans hsend) (by simp)

/-! ### Reads of globals -/

theorem readCell_isMechanical (cell : CellRef) (receiver : Value) (w : World) :
    (readCell cell receiver w).isMechanical = false := by
  rw [readCell]
  split <;> rfl

/-- A read of a global. -/
theorem readGlobal_quickens (h : w.Sound s) (hcode : .block code ∈ s.written)
    (hop : code.program.tape.opcode? ip = some .pushGlobal) (receiver : Value) :
    w.Quickens code ip (readGlobal (code.id, ip)
      (code.program.literal? (code.program.tape.byteAt (ip + 1))) receiver w) := by
  have hsend : code.sends? ip = none := by
    rw [Code.sends?, hop]
  unfold readGlobal
  split
  · exact .of_premises (readCell_isMechanical _ _ _) rfl
  -- An instruction that reads a global sends no message.
  · rename_i site hne hsite
    have hsound := h.site hcode hsite
    cases site with
    | global cell => exact absurd rfl (hne cell)
    | chain c => exact absurd (hsound.1.symm.trans hsend) (by simp)
    | eager op cls epoch arity =>
      obtain ⟨selector', hs, -⟩ := hsound
      exact absurd (hs.symm.trans hsend) (by simp)
    | super target epoch =>
      obtain ⟨selector', holder, hs, -⟩ := hsound
      exact absurd (hs.symm.trans hsend) (by simp)
  · rename_i hnone
    split
    · rename_i name hl
      generalize w.globals.cell name = found
      obtain ⟨cell, globals⟩ := found
      dsimp only
      generalize hw₁ : World.noteQuickened _ _ _ = w₁
      have hread : code.reads? ip = some name := by
        rw [Code.reads?, hop]
        dsimp only
        rw [hl]
      have hw₁ : w₁.premises = w.premises := hw₁ ▸ World.noteQuickened_premises _ _ _
      refine World.Quickens.after (.specialize (readCell_isMechanical _ _ _) (.single ?_)) hw₁
      rw [World.sites_of_premises hw₁, hnone]
      exact .finds cell hread
    · exact .of_premises rfl rfl

end Parley
