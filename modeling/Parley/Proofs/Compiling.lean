import Parley.Proofs.Lowering
import Parley.Proofs.Splicing

/-!
# Lowering makes no defects

However a tree looks, lowering it only fails by what the tree asks for: something that the
language does not allow, or more of something than an operand can number. Each step of lowering
keeps the draft in good order (`Lowering.Ready`), and the names in scope are in step with the
frames around the draft (`Scopes.Declare`), so that every operand refers to what is there.

* `Scope.resolve_fits`: what a name denotes is in the frames;
* `Lower.Safe`: what is shown of a step of lowering, with its rules;
* `Lower.expression_safe` and its companions: lowering an expression leaves one value, lowering a
  block gives a code that fits in where it is written;
* `lower_safe`: so no method is refused for a defect, and what comes of one is labelled throughout.
-/

namespace Parley

variable {α β : Type} {env frames : List Outline} {O K : Set (Nat × Nat)} {n n' : Nat}
  {scopes : List Scope} {o : Outline} {k : Nat} {S T : Set (Literal Code)}

/-! ### Names and frames -/

/-- A scope declares what a frame has, but for locals that came from elsewhere. -/
structure Scope.Declares (s : Scope) (o : Outline) : Prop where
  arguments : s.arguments.length = o.arguments
  locals : s.locals.length ≤ o.locals
  /-- Argument zero has a name, too. -/
  receiver : 0 < s.arguments.length
  argumentsFit : s.arguments.length ≤ 256
  localsFit : s.locals.length ≤ 256

/-- Scope by scope the frames have what is declared, and no more of them than can be counted. -/
structure Scopes.Declare (scopes : List Scope) (frames : List Outline) : Prop where
  each : List.Forall₂ Scope.Declares scopes frames
  fit : frames.length ≤ 256

/-- Whether what a name denotes is in frames with these outlines. -/
def Denotation.Fits (frames : List Outline) : Denotation → Prop
  | .receiver level | .field _ level => level.toNat + 1 = frames.length
  | .argument slot level =>
    ∃ o, frames[level.toNat]? = some o ∧ slot.toNat < o.arguments ∧ slot ≠ 0
  | .temporary slot level => ∃ o, frames[level.toNat]? = some o ∧ slot.toNat < o.locals
  | .constant _ | .global _ => True

theorem toNat_ofNat_of_lt {i : Nat} (h : i < 256) : (UInt8.ofNat i).toNat = i := by
  rw [UInt8.toNat_ofNat']
  omega

theorem lt_of_idxOf? {names : List String} {name : String} {i : Nat}
    (h : names.idxOf? name = some i) : i < names.length :=
  (List.findIdx?_eq_some_iff_getElem.1 h).1

theorem Scope.Declares.le {s : Scope} {o' : Outline} (h : s.Declares o) (hle : o.Le o') :
    s.Declares o' :=
  { h with arguments := h.arguments.trans hle.arguments.symm, locals := h.locals.trans hle.locals }

theorem Scopes.Declare.le {o' : Outline} (h : Scopes.Declare scopes (o :: env)) (hle : o.Le o') :
    Scopes.Declare scopes (o' :: env) := by
  obtain ⟨heach, hfit⟩ := h
  cases heach with
  | cons hfirst hrest => exact ⟨.cons (hfirst.le hle) hrest, hfit⟩

/-- Every frame has the argument zero. -/
theorem Scopes.Declare.receiver (h : Scopes.Declare scopes frames) {level : Nat}
    (hlt : level < frames.length) : ∃ o, frames[level]? = some o ∧ 0 < o.arguments := by
  have hlt' : level < scopes.length := h.each.length_eq ▸ hlt
  have hs := h.each.get hlt' hlt
  exact ⟨frames[level], List.getElem?_eq_getElem hlt, hs.arguments ▸ hs.receiver⟩

/-- A variable of a scope is in the frame of the scope. -/
theorem Scope.declared?_fits {s : Scope} {level : Nat} {name : String} {d : Denotation}
    (hd : s.declared? (UInt8.ofNat level) name = some d) (hs : s.Declares o)
    (ho : frames[level]? = some o) (hlevel : level < 256) : d.Fits frames := by
  have hlocals := hs.localsFit
  have harguments := hs.argumentsFit
  rw [declared?] at hd
  split at hd
  · rename_i slot hslot
    have hlt := lt_of_idxOf? hslot
    cases hd
    refine ⟨o, by rwa [toNat_ofNat_of_lt hlevel], ?_⟩
    rw [toNat_ofNat_of_lt (by omega)]
    exact hlt.trans_le hs.locals
  · obtain ⟨slot, hslot, rfl⟩ := Option.map_eq_some_iff.1 hd
    have hlt := lt_of_idxOf? hslot
    rw [List.length_drop] at hlt
    have hfits : (UInt8.ofNat (slot + 1)).toNat = slot + 1 := toNat_ofNat_of_lt (by omega)
    refine ⟨o, by rwa [toNat_ofNat_of_lt hlevel], ?_, fun hzero => ?_⟩
    · rw [hfits, ← hs.arguments]
      omega
    · rw [hzero] at hfits
      exact absurd hfits (by simp)

theorem Scope.visible?_fits {name : String} {d : Denotation} {level : Nat} {outer : List Scope}
    (hd : visible? name level outer = some d)
    (hs : List.Forall₂ Scope.Declares outer (frames.drop level)) (hfit : frames.length ≤ 256) :
    d.Fits frames := by
  induction outer generalizing level with
  | nil => cases hd
  | cons s outer ih =>
    cases hdrop : frames.drop level with
    | nil =>
      rw [hdrop] at hs
      cases hs
    | cons o rest =>
      rw [hdrop] at hs
      obtain _ | ⟨hfirst, hrest⟩ := hs
      have hlt : level < frames.length := by
        by_contra hge
        rw [List.drop_eq_nil_of_le (by omega)] at hdrop
        cases hdrop
      rw [List.drop_eq_getElem_cons hlt, List.cons.injEq] at hdrop
      rw [visible?] at hd
      split at hd
      · rename_i hdeclared
        cases hd
        refine declared?_fits hdeclared hfirst ?_ (by omega)
        rw [List.getElem?_eq_getElem hlt, hdrop.1]
      · exact ih hd (hdrop.2 ▸ hrest)

/-- What a name denotes is in the frames of the scopes. -/
theorem Scope.resolve_fits (h : Scopes.Declare scopes frames) (hne : frames ≠ [])
    (fields : List String) (name : String) : (resolve scopes fields name).Fits frames := by
  have hlength := h.each.length_eq
  have hpos := List.length_pos_iff.2 hne
  have hfit := h.fit
  have hmethod : (UInt8.ofNat (scopes.length - 1)).toNat + 1 = frames.length := by
    rw [toNat_ofNat_of_lt (by omega)]
    omega
  unfold resolve
  extract_lets method
  split
  · rename_i d hd
    unfold pseudo? at hd
    split at hd <;> cases hd <;> first | exact hmethod | trivial
  · split
    · rename_i hd
      exact visible?_fits hd h.each hfit
    · split
      · exact hmethod
      · trivial

/-! ### Steps of lowering -/

namespace Lower

/-- A step of lowering succeeds as described, or fails by no defect. -/
def Safe (x : Lower α) (l : Lowering) (post : α → Lowering → Prop) : Prop :=
  match x l with
  | .ok a l' => post a l'
  | .error e _ => e.isDefect = false

variable {l : Lowering} {x : Lower α} {post mid : α → Lowering → Prop}

theorem Safe.of_ok {a : α} {l' : Lowering} (hx : x l = .ok a l') (h : post a l') :
    x.Safe l post := by
  rw [Safe, hx]
  exact h

theorem Safe.pure {a : α} (h : post a l) : (Pure.pure a : Lower α).Safe l post :=
  h

theorem Safe.throw {e : CompileError} (he : e.isDefect = false) :
    (throw e : Lower α).Safe l post :=
  he

/-- Nothing comes after a failure. -/
theorem throw_bind_safe {e : CompileError} (he : e.isDefect = false) (f : α → Lower β)
    (post : β → Lowering → Prop) : ((throw e : Lower α) >>= f).Safe l post :=
  he

theorem Safe.bind {f : α → Lower β} {post : β → Lowering → Prop} (hx : x.Safe l mid)
    (hf : ∀ a l', mid a l' → (f a).Safe l' post) : (x >>= f).Safe l post := by
  rw [Safe, show (x >>= f) l = EStateM.bind x f l from rfl, EStateM.bind]
  rw [Safe] at hx
  cases hr : x l with
  | ok a l' =>
    rw [hr] at hx
    exact hf a l' hx
  | error e l' =>
    rw [hr] at hx
    exact hx

/-- What looks at the whole state first. -/
theorem get_bind_safe {f : Lowering → Lower α} (h : (f l).Safe l post) : (get >>= f).Safe l post :=
  h

theorem Safe.mono (h : x.Safe l mid) (himp : ∀ a l', mid a l' → post a l') : x.Safe l post := by
  rw [Safe] at h ⊢
  cases hr : x l with
  | ok a l' =>
    rw [hr] at h
    exact himp a l' h
  | error e l' =>
    rw [hr] at h
    exact h

/-- The codes that a step makes stay apart. -/
theorem Safe.numbered {made : α → Set (Literal Code)} (h : x.Safe l post) (hm : Makes k S x made)
    (hn : Numbered (parts l.draft.literals ∪ S) l.supply.code) : x.Safe l fun a l' =>
      post a l' ∧ Numbered (parts l'.draft.literals ∪ made a) l'.supply.code := by
  have hm := hm l
  rw [Safe] at h ⊢
  cases hr : x l with
  | ok a l' =>
    rw [hr] at h hm
    exact ⟨h, hm.numbered hn⟩
  | error e l' =>
    rw [hr] at h
    exact h

theorem onDraft_safe {f : Draft → Except CompileError (α × Draft)} {post : α × Draft → Prop}
    (h : Yields (f l.draft) post) :
    (onDraft f).Safe l fun a l' => ∃ d, l' = { l with draft := d } ∧ post (a, d) := by
  rcases h with ⟨⟨a, d⟩, hr, hpost⟩ | ⟨e, hr, he⟩
  · have hx : onDraft f l = .ok a { l with draft := d } := by
      simp only [onDraft, get_bind, hr]
      rfl
    rw [Safe, hx]
    exact ⟨d, rfl, hpost⟩
  · have hx : onDraft f l = .error e l := by
      simp only [onDraft, get_bind, hr]
      rfl
    rw [Safe, hx]
    exact he

theorem changeDraft_safe {f : Draft → Except CompileError Draft} {post : Draft → Prop}
    (h : Yields (f l.draft) post) :
    (changeDraft f).Safe l fun _ l' => ∃ d, l' = { l with draft := d } ∧ post d := by
  let g : Draft → Except CompileError (Unit × Draft) := fun d => (f d).map fun d => ((), d)
  have hmap : Yields (g l.draft) fun r => post r.2 := by
    dsimp only [g]
    rcases h with ⟨d, hr, hpost⟩ | ⟨e, hr, he⟩
    · rw [hr]
      exact .inl ⟨_, rfl, hpost⟩
    · rw [hr]
      exact .inr ⟨e, rfl, he⟩
  exact onDraft_safe hmap

end Lower

/-! ### Steps that write -/

/-- A state of lowering in good order. The frame is `o`, perhaps with further locals, and the
    literals `S` are around beside the draft. -/
structure Lowering.Ready (l : Lowering) (o : Outline) (scopes : List Scope) (env : List Outline)
    (O K : Set (Nat × Nat)) (n : Nat) (S : Set (Literal Code)) : Prop where
  stands : l.draft.Stands env O K n
  frame : o.Le l.draft.outline
  declare : Scopes.Declare scopes (l.draft.outline :: env)
  numbered : Numbered (parts l.draft.literals ∪ S) l.supply.code

namespace Lowering.Ready

variable {l : Lowering} {O' K' : Set (Nat × Nat)}

/-- The draft is written on. -/
theorem change (h : l.Ready o scopes env O K n S) {d : Draft} (hs : d.Stands env O' K' n')
    (hw : l.draft.Widens d) (hn : Numbered (parts d.literals ∪ T) l.supply.code) :
    { l with draft := d }.Ready o scopes env O' K' n' T :=
  ⟨hs, h.frame.trans hw.outline, h.declare.le hw.outline, hn⟩

/-- The frame is looked at as it is now. -/
theorem rebase (h : l.Ready o scopes env O K n S) : l.Ready l.draft.outline scopes env O K n S :=
  { h with frame := .refl _ }

/-- The frame had fewer locals before. -/
theorem since {o' : Outline} (h : l.Ready o scopes env O K n S) (hle : o'.Le o) :
    l.Ready o' scopes env O K n S :=
  { h with frame := hle.trans h.frame }

theorem remember (h : l.Ready o scopes env O K n S) :
    l.Ready o scopes env O (insert (l.draft.position, n) K) n S :=
  { h with stands := h.stands.remember }

theorem forget (h : l.Ready o scopes env O K n S) (hK : K' ⊆ K) :
    l.Ready o scopes env O K' n S :=
  { h with stands := h.stands.forget hK }

end Lowering.Ready

namespace Lower

variable {l : Lowering} {op : Opcode} {operands : List UInt8} {pops pushes ip : Nat}

theorem emit_safe (h : l.Ready o scopes env O K n S) (he : op.effect? = some (pops, pushes))
    (hlength : operands.length + 1 = op.size)
    (haddr : op.Addresses (l.draft.outline :: env) (operands.getD 0 0) (operands.getD 1 0))
    (hpops : pops ≤ n) (hfalls : Tape.fallsThrough op → n' = n - pops + pushes)
    (hreturns : op = .returnLocal → env = []) :
    (emit op operands).Safe l fun _ l' => l'.Ready o scopes env O K n' S :=
  h.change (h.stands.emit he hlength haddr hpops hfalls hreturns) (.of_eq rfl rfl) h.numbered

/-- Writing an instruction without operands that does not return. -/
theorem emitOp_safe (op : Opcode) (h : l.Ready o scopes env O K n S)
    (he : op.effect? = some (pops, pushes)) (hlength : 1 = op.size)
    (haddr : op.Addresses (l.draft.outline :: env) 0 0) (hpops : pops ≤ n)
    (hreturns : op ≠ .returnLocal) (hn' : n' = n - pops + pushes) :
    (emit op []).Safe l fun _ l' => l'.Ready o scopes env O K n' S :=
  emit_safe h he hlength haddr hpops (fun _ => hn') fun hop => absurd hop hreturns

/-- Pushing what takes no operands. -/
theorem emitPush_safe (h : l.Ready o scopes env O K n S) (he : op.effect? = some (0, 1))
    (hlength : 1 = op.size) (haddr : op.Addresses (l.draft.outline :: env) 0 0) :
    (emit op []).Safe l fun _ l' => l'.Ready o scopes env O K (n + 1) S :=
  emitOp_safe op h he hlength haddr n.zero_le (fun hop => by subst hop; cases he) rfl

/-- Writing an instruction with a literal that is no block. -/
theorem emitLiteral_safe (h : l.Ready o scopes env O K n S) {m : Literal Code}
    (hm : ∀ c, m ≠ .block c) (hfits : m.Fits 0) (hsuits : Tape.suits op m)
    (heffect : op.literalEffect m = (pops, pushes)) (hpops : pops ≤ n)
    (hn' : n' = n - pops + pushes) :
    (emitLiteral op m).Safe l fun _ l' => l'.Ready o scopes env O K n' S := by
  have hyields := h.stands.emitLiteral hsuits heffect hpops hn' fun _ b _ hb => absurd hb (hm b)
  refine ((changeDraft_safe hyields).numbered ((emitPlain_makes op hm hfits).frame S)
    h.numbered).mono ?_
  rintro _ _ ⟨⟨d, rfl, hs, -, ha, hl⟩, hn⟩
  exact h.change hs (.of_eq ha hl) hn

/-- Pushing a constant. -/
theorem emitConstant_safe (h : l.Ready o scopes env O K n S) {v : Value} (hv : v.Within 0) :
    (emitLiteral .pushConstant (.value v)).Safe l fun _ l' =>
      l'.Ready o scopes env O K (n + 1) S :=
  emitLiteral_safe h (by simp) hv rfl rfl n.zero_le rfl

/-- A message takes its receiver and its arguments off the stack and puts the answer there. -/
theorem emitSend_safe {selector : Selector} {toSuper : Bool}
    (h : l.Ready o scopes env O K (n + (selector.arity + 1)) S) :
    (emitLiteral (.send toSuper) (.selector selector)).Safe l fun _ l' =>
      l'.Ready o scopes env O K (n + 1) S :=
  emitLiteral_safe h (by simp) trivial rfl rfl (by omega) (by omega)

/-- Pushing a block that fits in and was just lowered. -/
theorem emitBlock_safe {c : Code} (h : l.Ready o scopes env O K n c.parts)
    (hc : c.Lexical (l.draft.outline :: env)) :
    (emitLiteral (.pushBlock c.program.needsContext) (.block c)).Safe l fun _ l' =>
      l'.Ready o scopes env O K (n + 1) ∅ := by
  have hyields : Yields (l.draft.emitLiteral (.pushBlock c.program.needsContext)
    (.block c)) fun d =>
      d.Stands env O K (n + 1) ∧ d.position = l.draft.position + 2 ∧
        d.arguments = l.draft.arguments ∧ d.locals = l.draft.locals := by
    refine h.stands.emitLiteral rfl rfl n.zero_le rfl fun w b hw hb => ?_
    cases hw
    cases hb
    -- A block of the pool with that number is the block itself.
    exact ⟨rfl, hc, fun b hb hid =>
      h.numbered.inj b c (.inl ⟨_, hb, .self _⟩) (.inr (.self _)) hid⟩
  refine ((changeDraft_safe hyields).numbered (emitLiteral_makes (k := 0) _ (.block c))
    h.numbered).mono ?_
  rintro _ _ ⟨⟨d, rfl, hs, -, ha, hl⟩, hn⟩
  exact h.change hs (.of_eq ha hl) hn

/-- Popping into a local of the frame. -/
theorem popLocal_safe {slot : UInt8} (h : l.Ready o scopes env O K (n + 1) S)
    (hslot : slot.toNat < o.locals) :
    (emit (.pop .temporary) [slot, 0]).Safe l fun _ l' => l'.Ready o scopes env O K n S :=
  emit_safe h rfl rfl ⟨l.draft.outline, rfl, hslot.trans_le h.frame.locals⟩ (by omega)
    (fun _ => rfl) nofun

/-- Opening a forward jump. -/
theorem emitJump_safe (h : l.Ready o scopes env O K n S) {j : Jump} (hj : j ≠ .back)
    (hpops : j.effect.1 ≤ n)
    (hfalls : Tape.fallsThrough (.jump j false) → n' = n - j.effect.1 + j.effect.2) :
    (emitJump (.jump j false)).Safe l fun ip l' => (∀ x ∈ O, x.1 ≠ ip) ∧
      l'.Ready o scopes env (insert (ip, j.landing n) O) K n' S :=
  ⟨fun _ hx => (h.stands.lt_position hx).ne,
    h.change (h.stands.emitJump hj hpops hfalls) (.of_eq rfl rfl) h.numbered⟩

/-- Behind a jump that is always taken there may be any depth. -/
theorem emitAlways_safe (h : l.Ready o scopes env O K n S) (n' : Nat) :
    (emitJump (.jump .always false)).Safe l fun ip l' => (∀ x ∈ O, x.1 ≠ ip) ∧
      l'.Ready o scopes env (insert (ip, n) O) K n' S :=
  emitJump_safe h nofun n.zero_le nofun

/-- Pointing an open jump to the next instruction. -/
theorem patchHere_safe (h : l.Ready o scopes env (insert (ip, n) O) K n S)
    (hO : ∀ x ∈ O, x.1 ≠ ip) :
    (patchHere ip).Safe l fun _ l' => l'.Ready o scopes env O K n S := by
  refine ((changeDraft_safe (h.stands.patchHere hO)).numbered
    ((patchHere_makes (k := 0) ip).frame S) h.numbered).mono ?_
  rintro _ _ ⟨⟨d, rfl, hs, -, ha, hl⟩, hn⟩
  exact h.change hs (.of_eq ha hl) hn

/-- A jump back to a place with the depth that there is now. -/
theorem emitBack_safe (h : l.Ready o scopes env O K n S) {head : Nat} (hhead : (head, n) ∈ K)
    (n' : Nat) : (emitBack head).Safe l fun _ l' => l'.Ready o scopes env O K n' S := by
  refine ((changeDraft_safe (h.stands.emitBack hhead n')).numbered
    ((emitBack_makes (k := 0) head).frame S) h.numbered).mono ?_
  rintro _ _ ⟨⟨d, rfl, hs, -, ha, hl⟩, hn⟩
  exact h.change hs (.of_eq ha hl) hn

/-- The next offset may be remembered, with the depth that there is now. -/
theorem position_safe (h : l.Ready o scopes env O K n S) : position.Safe l fun head l' =>
    l'.Ready o scopes env O (insert (head, n) K) n S :=
  h.remember

/-- A variable of another scope gets a slot of the frame. -/
theorem mergeLocal_safe (h : l.Ready o scopes env O K n S) (v : Variable) :
    (onDraft fun d => d.mergeLocal v).Safe l fun slot l' =>
      slot.toNat < l'.draft.outline.locals ∧ l.draft.outline.Le l'.draft.outline ∧
        l'.Ready o scopes env O K n S := by
  refine ((onDraft_safe (h.stands.mergeLocal v)).numbered (Makes.frame (k := 0)
    (onDraft_makes fun _ _ _ hr => Draft.mergeLocal_literals hr) S) h.numbered).mono ?_
  rintro slot _ ⟨⟨d, rfl, hs, -, hw, w, hget, -⟩, hn⟩
  exact ⟨(Array.getElem?_eq_some_iff.1 hget).1, hw.outline, h.change hs hw hn⟩

/-- A block that fits in can be spliced, which leaves one value. -/
theorem splice_safe {c : Code} (h : l.Ready o scopes env O K n c.parts)
    (hc : c.Lexical (l.draft.outline :: env)) :
    (splice c).Safe l fun _ l' => l'.Ready o scopes env O K (n + 1) ∅ := by
  have hsafe : (splice c).Safe l fun _ l' =>
      l'.draft.Stands env O K (n + 1) ∧ l.draft.Widens l'.draft := by
    rcases h.stands.splice hc h.numbered with ⟨⟨d, next⟩, hr, hpost⟩ | ⟨e, hr, he⟩
    · have hx : splice c l = .ok () { l with
          draft := d
          supply := { l.supply with code := next }
          events := spliced c l.draft d :: l.events } := by
        simp only [splice, get_bind, hr]
        rfl
      rw [Safe, hx]
      exact hpost
    · have hx : splice c l = .error e l := by
        simp only [splice, get_bind, hr]
        rfl
      rw [Safe, hx]
      exact he
  refine (hsafe.numbered (splice_makes (k := 0) c) h.numbered).mono ?_
  rintro _ l' ⟨⟨hs, hw⟩, hn⟩
  exact ⟨hs, h.frame.trans hw.outline, h.declare.le hw.outline, hn⟩

/-! ### Variables and constants -/

theorem constant_safe (h : l.Ready o scopes env O K n S) (c : Constant) :
    (constant c).Safe l fun _ l' => l'.Ready o scopes env O K (n + 1) S := by
  cases c with
  | nil => exact emitPush_safe h rfl rfl trivial
  | bool b => exact emitConstant_safe h trivial
  | int i =>
    rw [constant]
    split
    · exact emitPush_safe h rfl rfl trivial
    · split
      · exact emitPush_safe h rfl rfl trivial
      · exact emitConstant_safe h trivial
  | double d => exact emitConstant_safe h trivial
  | string s =>
    rw [constant]
    have hfresh : freshString.Safe l fun _ l' => l'.Ready o scopes env O K n S :=
      ⟨h.stands, h.frame, h.declare, h.numbered⟩
    exact hfresh.bind fun _ _ h' => emitConstant_safe h' trivial
  | symbol s => exact emitConstant_safe h trivial

theorem read_safe (h : l.Ready o scopes env O K n S) (u : Subject) (name : String) :
    (read u scopes name).Safe l fun _ l' => l'.Ready o scopes env O K (n + 1) S := by
  have hfits := Scope.resolve_fits h.declare (by simp) u.fields name
  have hpush : ∀ place first second,
      (Opcode.push place).Addresses (l.draft.outline :: env) first second →
      (emit (.push place) [first, second]).Safe l fun _ l' =>
        l'.Ready o scopes env O K (n + 1) S := fun place first second haddr =>
    emit_safe h rfl rfl haddr n.zero_le (fun _ => rfl) nofun
  rw [read]
  split
  · rename_i level hd
    rw [hd] at hfits
    have hlevel : level.toNat + 1 = (l.draft.outline :: env).length := hfits
    split
    · rename_i hzero
      subst hzero
      exact emitPush_safe h rfl rfl hlevel.symm
    · obtain ⟨o', ho, hpos⟩ := h.declare.receiver (Nat.lt_of_succ_le hlevel.le)
      exact hpush _ _ _ ⟨o', ho, hpos, fun _ => hlevel⟩
  · rename_i slot level hd
    rw [hd] at hfits
    obtain ⟨o', ho, hlt, hne⟩ := hfits
    exact hpush _ _ _ ⟨o', ho, hlt, fun hzero => absurd hzero hne⟩
  · rename_i slot level hd
    rw [hd] at hfits
    exact hpush _ _ _ hfits
  · rename_i index level hd
    rw [hd] at hfits
    exact hpush _ _ _ hfits
  · exact emitPush_safe h rfl rfl trivial
  · rename_i hd
    exact emitConstant_safe h (resolve_constant hd)
  · exact emitLiteral_safe h (by simp) trivial rfl rfl n.zero_le rfl

theorem write_safe (h : l.Ready o scopes env O K (n + 1) S) (u : Subject) (name : String) :
    (write u scopes name).Safe l fun _ l' => l'.Ready o scopes env O K n S := by
  have hfits := Scope.resolve_fits h.declare (by simp) u.fields name
  have hpop : ∀ place first second,
      (Opcode.pop place).Addresses (l.draft.outline :: env) first second →
      (emit (.pop place) [first, second]).Safe l fun _ l' =>
        l'.Ready o scopes env O K n S := fun place first second haddr =>
    emit_safe h rfl rfl haddr (by omega) (fun _ => rfl) nofun
  rw [write]
  split
  · rename_i slot level hd
    rw [hd] at hfits
    exact hpop _ _ _ hfits
  · rename_i slot level hd
    rw [hd] at hfits
    exact hpop _ _ _ hfits
  · rename_i index level hd
    rw [hd] at hfits
    exact hpop _ _ _ hfits
  · exact .throw rfl
  · exact .throw rfl
  · exact .throw rfl

theorem checkArity_safe (l : Lowering) (selector : Selector) (given : Nat) :
    (checkArity selector given).Safe l fun _ l' => l' = l ∧ selector.arity = given := by
  rw [checkArity]
  split
  · rename_i he
    exact .pure ⟨rfl, he⟩
  · exact .throw rfl

/-! ### Scopes -/

end Lower

/-- A draft in which nothing is written, for a frame with the outline given. -/
structure Draft.Blank (d : Draft) (o : Outline) : Prop where
  tape : d.tape = #[]
  literals : d.literals = #[]
  loops : d.loops = []
  outline : d.outline = o
  argumentsFit : o.arguments ≤ 256
  localsFit : o.locals ≤ 256
  slots : ∀ (i : Nat) v, d.locals[i]? = some v → v.slot.toNat = i

namespace Draft

variable {d : Draft} {a b : Nat}

theorem blank_empty (scope : Nat) (depth : UInt8) : (empty scope depth).Blank ⟨0, 0⟩ :=
  ⟨rfl, rfl, rfl, rfl, Nat.zero_le _, Nat.zero_le _, by simp [empty]⟩

theorem Blank.addArgument (h : d.Blank ⟨a, b⟩) (name : String) :
    Yields (d.addArgument name) (Blank · ⟨a + 1, b⟩) := by
  obtain ⟨ha, hb⟩ := Outline.mk.inj h.outline
  rw [Draft.addArgument]
  split
  · exact .inr ⟨_, rfl, rfl⟩
  · rename_i hsize
    refine .inl ⟨_, rfl, { h with outline := ?_, argumentsFit := ?_ }⟩
    · rw [Draft.outline, Program.outline, Outline.mk.injEq]
      exact ⟨(Array.size_push _).trans (congrArg (· + 1) ha), hb⟩
    · rw [show d.arguments.size = a from ha] at hsize
      exact (by omega : a + 1 ≤ 256)

theorem Blank.addLocal (h : d.Blank ⟨a, b⟩) (name : String) :
    Yields (d.addLocal name) (Blank · ⟨a, b + 1⟩) := by
  obtain ⟨ha, hb⟩ := Outline.mk.inj h.outline
  rw [Draft.addLocal]
  split
  · exact .inr ⟨_, rfl, rfl⟩
  · rename_i hsize
    refine .inl ⟨_, rfl, { h with outline := ?_, localsFit := ?_, slots := fun i v hv => ?_ }⟩
    · rw [Draft.outline, Program.outline, Outline.mk.injEq]
      exact ⟨ha, (Array.size_push _).trans (congrArg (· + 1) hb)⟩
    · rw [show d.locals.size = b from hb] at hsize
      exact (by omega : b + 1 ≤ 256)
    · rw [Array.getElem?_push] at hv
      split at hv
      · rename_i hi
        cases hv
        exact (toNat_ofNat_of_lt (by omega)).trans hi.symm
      · exact h.slots i v hv

/-- An empty program is in order, in frames of any kind. -/
theorem Blank.stands (h : d.Blank o) (env : List Outline) : d.Stands env ∅ ∅ 0 := by
  have htape : d.program.tape = #[] := h.tape
  have hstarts : d.program.tape.starts = [] := by
    rw [htape, Tape.starts, Tape.startsFrom]
    rfl
  have hliterals : d.program.literals = #[] := h.literals
  refine ⟨⟨fun _ => 0, ⟨?_, rfl, ?_, by simp, ?_, ?_, ?_, h.slots⟩, rfl, by simp⟩, ?_⟩
  · intro ip hip
    rw [hstarts] at hip
    cases hip
  · simp [hstarts]
  · simp [hliterals]
  · simp [hliterals]
  · rw [Tape.backs, hstarts]
    simp [program, h.loops]
  · intro ip hip
    rw [hstarts] at hip
    cases hip

end Draft

/-- What a block comes to in the frames that it is written in: nothing behind a return out of the
    method is lowered. -/
structure Code.OfBlock (c : Code) (frames : List Outline) (parameters : List String)
    (body : List Expr) : Prop where
  lexical : c.Lexical frames
  arguments : c.program.arguments.size = parameters.length + 1
  endsWith : c.program.EndsWith (if body.any Expr.isLeave then .returnNonLocal else .returnLocal)

namespace Lower

variable {l : Lowering} {u : Subject}

/-- Declaring names one after another. -/
theorem forM_safe {f : String → Draft → Except CompileError Draft} (inv : Nat → Draft → Prop)
    (hf : ∀ i d name, inv i d → Yields (f name d) (inv (i + 1))) (names : List String) {i : Nat}
    (h : inv i l.draft) : (names.forM fun name => changeDraft (f name)).Safe l fun _ l' =>
      inv (i + names.length) l'.draft := by
  induction names generalizing l i with
  | nil => exact .pure h
  | cons name rest ih =>
    refine (changeDraft_safe (hf i _ name h)).bind ?_
    rintro _ _ ⟨d, rfl, hd⟩
    rw [List.length_cons, Nat.add_comm rest.length, ← Nat.add_assoc]
    exact ih (l := { l with draft := d }) hd

/-- In a scope that is opened nothing is written yet. -/
theorem openScope_blank (outer : List Scope) (first : String) (parameters locals : List String) :
    (openScope outer first parameters locals).Safe l fun scopes l' => outer.length ≤ 255 ∧
      scopes = ⟨first :: parameters, locals⟩ :: outer ∧
        l'.draft.Blank ⟨parameters.length + 1, locals.length⟩ := by
  unfold openScope
  extract_lets rest
  split
  · exact throw_bind_safe rfl _ _
  · rename_i hdepth
    have hfresh : freshScope.Safe l fun _ _ => True := trivial
    refine hfresh.bind fun origin l₁ _ => ?_
    have hempty : (modify fun l => { l with draft := .empty origin (UInt8.ofNat outer.length) } :
        Lower PUnit).Safe l₁ fun _ l' => l'.draft.Blank ⟨0, 0⟩ := Draft.blank_empty _ _
    refine hempty.bind fun _ l₂ h₂ => ?_
    refine (forM_safe (fun i d => d.Blank ⟨i, 0⟩)
      (fun _ _ name hd => hd.addArgument name) _ h₂).bind fun _ l₃ h₃ => ?_
    refine (forM_safe (fun i d => d.Blank ⟨_, i⟩)
      (fun _ _ name hd => hd.addLocal name) _ h₃).bind fun _ l₄ h₄ => .pure ?_
    rw [List.length_cons, Nat.zero_add, Nat.zero_add] at h₄
    exact ⟨Nat.le_of_not_lt hdepth, rfl, h₄⟩

/-- A scope that is opened is ready to be written in. -/
theorem openScope_safe {outer : List Scope} (h : Scopes.Declare outer env) (first : String)
    (parameters locals : List String) :
    (openScope outer first parameters locals).Safe l fun scopes l' =>
      l'.Ready ⟨parameters.length + 1, locals.length⟩ scopes env ∅ ∅ 0 ∅ := by
  refine (openScope_blank outer first parameters locals).mono ?_
  rintro _ l' ⟨hdepth, rfl, hblank⟩
  have hlength := h.each.length_eq
  refine ⟨hblank.stands env, hblank.outline ▸ .refl _, ⟨.cons ?_ h.each, ?_⟩, ?_⟩
  · rw [hblank.outline]
    exact ⟨rfl, le_rfl, Nat.succ_pos _, hblank.argumentsFit, hblank.localsFit⟩
  · rw [List.length_cons]
    omega
  · rw [hblank.literals, parts_empty, Set.union_empty]
    exact ⟨nofun, nofun⟩

/-- What comes of a scope that is complete. -/
theorem closeScope_safe {op : Opcode} (h : l.draft.Complete env op) (signature : Selector)
    {isBlock : Bool}
    (hlength : env.length < 256) (hkind : isBlock = !env.isEmpty) :
    (closeScope u signature isBlock).Safe l fun code _ =>
      code.Lexical env ∧ code.program.outline = l.draft.outline ∧ code.program.EndsWith op := by
  obtain ⟨maxStack, hfinish⟩ := h.finish
  obtain ⟨D, hD⟩ := h.labelled
  have hx : closeScope u signature isBlock l =
      .ok (.mk l.supply.code signature (some u.holder) isBlock { l.draft.program with maxStack })
        { l with supply := { l.supply with code := l.supply.code + 1 } } := by
    simp only [closeScope, get_bind, hfinish]
    rfl
  rw [Safe, hx]
  exact ⟨.of_encloses hlength hkind h.nonempty (hD.withBound maxStack) h.ends h.encloses, rfl,
    h.endsWith⟩

/-- A block that fits in, lowered while the draft around it is put aside. -/
theorem Safe.ready {parameters locals : List String} {body : List Expr}
    (hb : (block u scopes parameters locals body).Safe l fun code l' =>
      l'.draft = l.draft ∧ code.OfBlock (l.draft.outline :: env) parameters body)
    (h : l.Ready o scopes env O K n ∅) :
    (block u scopes parameters locals body).Safe l fun code l' =>
      l'.Ready o scopes env O K n code.parts ∧
        code.OfBlock (l'.draft.outline :: env) parameters body := by
  refine (hb.numbered (block_makes (u.holder + 1) u.holder.lt_succ_self scopes parameters locals
    body) h.numbered).mono ?_
  rintro code l' ⟨⟨hd, hcode⟩, hn⟩
  exact ⟨⟨hd ▸ h.stands, hd ▸ h.frame, hd ▸ h.declare, hn⟩, hd ▸ hcode⟩

end Lower

/-! ### Returns -/

/-- A state whose draft can be finished. -/
structure Lowering.Done (l : Lowering) (o : Outline) (env : List Outline) (op : Opcode) : Prop where
  complete : l.draft.Complete env op
  frame : o.Le l.draft.outline

namespace Lower

variable {l : Lowering}

/-- Leaving with an instruction that returns. -/
theorem leave_safe (h : l.Ready o scopes env ∅ K n S) {op : Opcode} {operands : List UInt8}
    {pops pushes : Nat} (he : op.effect? = some (pops, pushes))
    (hlength : operands.length + 1 = op.size)
    (haddr : op.Addresses (l.draft.outline :: env) (operands.getD 0 0) (operands.getD 1 0))
    (hpops : pops ≤ n) (hfalls : Tape.fallsThrough op = false)
    (hblock : env ≠ [] → op = .returnLocal ∧ n = 1 ∨ op = .returnNonLocal) :
    (emit op operands).Safe l fun _ l' => l'.Done o env op :=
  ⟨h.stands.leave he hlength haddr hpops hfalls hblock, h.frame⟩

/-- The level of the method is that of the last frame. -/
theorem toNat_depth (h : Scopes.Declare scopes frames) (hne : frames ≠ []) :
    (depth scopes).toNat + 1 = frames.length := by
  have hlength := h.each.length_eq
  have hpos := List.length_pos_iff.2 hne
  have hfit := h.fit
  rw [depth, toNat_ofNat_of_lt (by omega)]
  omega

/-- The instruction that returns from the method of frames. -/
def returning (env : List Outline) : Opcode :=
  if env.isEmpty then .returnLocal else .returnNonLocal

/-- Returning from the method, with a value on the stack. -/
theorem leaveMethod_safe (h : l.Ready o scopes env ∅ K 1 ∅) :
    (if depth scopes = 0 then emit .returnLocal []
      else emit .returnNonLocal [depth scopes]).Safe l fun _ l' =>
        l'.Done o env (returning env) := by
  have hdepth := toNat_depth h.declare (by simp)
  split
  · rename_i hzero
    rw [hzero] at hdepth
    obtain rfl : env = [] := by simpa using hdepth
    exact leave_safe h rfl rfl trivial le_rfl rfl nofun
  · rename_i hzero
    have hne : env ≠ [] := by
      rintro rfl
      exact hzero (UInt8.toNat_inj.1 (by simpa using hdepth))
    rw [returning, if_neg (by simpa using hne)]
    exact leave_safe h rfl rfl ⟨hzero, hdepth⟩ le_rfl rfl fun _ => .inr rfl

end Lower

end Parley
