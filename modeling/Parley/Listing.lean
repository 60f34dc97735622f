import Parley.Retention

/-!
# Listings

The instructions of a code, one a line: the offset, the name, the operands, and what the
instruction is specialized to if it is. Literals are printed as values are, so there is no
listing of a code with a literal that contains itself.
-/

namespace Parley

/-- The hexadecimal digits of a tape, two for each byte. -/
def Tape.hex (t : Tape) : String :=
  String.join (t.toList.map Text.hexByte)

/-- The name of a code and its kind in listings. -/
def Code.text (c : Code) : String :=
  "CompiledMethod \x7b signature: " ++ c.signature.hashed ++ ", num_args: " ++
    c.argumentCount.repr ++ ", is_block: " ++ Text.truth c.isBlock ++ " \x7d"

namespace World

variable (w : World)

/-- A literal in listings. -/
def literalText? : Literal Code → Option String
  | .value v => w.debug? v
  | .selector s => some s.hashed
  | .global name => some ("global " ++ name)
  | .block b => some ("block " ++ b.signature)

/-- The operands of an instruction in listings. -/
def operandText? (p : Program Code) (ip : Nat) (op : Opcode) : Option String :=
  let first := p.tape.byteAt (ip + 1)
  let second := p.tape.byteAt (ip + 2)
  match op with
  | .jump j wide =>
    let distance := p.tape.distance ip wide
    some (" -> " ++ Text.padZeros 4 (if j = .back then ip - distance else ip + distance))
  | .push _ | .pop _ => some (" " ++ first.toNat.repr ++ " ctx " ++ second.toNat.repr)
  | .returnNonLocal => some (" ctx " ++ first.toNat.repr)
  | op =>
    if op.size = 2 then
      match p.literal? first with
      | some (.block b) =>
        some (" [block " ++ b.signature.hashed ++ " args=" ++ (b.argumentCount - 1).repr ++ "]")
      | some l => (w.literalText? l).map (" " ++ ·)
      | none => some (" <literal " ++ first.toNat.repr ++ "?>")
    else some ""

/-- What an instruction is specialized to, in listings. -/
def siteText (code : Nat) (ip : Nat) : String :=
  match w.sites[(code, ip)]? with
  | some site => "  ; " ++ site.opcode.name ++ " " ++ site.text w.classes w.globals
  | none => ""

/-- The line of an instruction. -/
def line? (c : Code) (ip : Nat) : Option String :=
  match c.program.tape.opcode? ip with
  | none => some (Text.padZeros 4 ip ++ "  <bad opcode " ++ (c.program.tape.byteAt ip).toNat.repr ++
      ">")
  | some op =>
    (w.operandText? c.program ip op).map fun operands =>
      Text.padZeros 4 ip ++ "  " ++ Text.padRight 24 op.name ++ operands ++ w.siteText c.id ip

/-- The lines of a code. -/
def listing? (c : Code) : Option (List String) :=
  let p := c.program
  let head := "; args=" ++ p.arguments.size.repr ++ " locals=" ++ p.locals.size.repr ++
    " max_stack=" ++ p.maxStack.repr ++ " loops=" ++ p.loops.length.repr
  (p.tape.starts.mapM (w.line? c)).map (head :: ·)

/-- The lines of a code and of the blocks in it, each under its signature. -/
def fullListing? (c : Code) : Option (List String) :=
  (c.family.mapM fun c => (w.listing? c).map (c.signature.hashed :: ·)).map List.flatten

/-- The text of a code and of the blocks in it, each under its class and signature, with an empty
    line before each block. -/
def listingText? (c : Code) : Option String :=
  let part (c : Code) : Option String :=
    let holder := ((w.holderOf [] c).map w.classes.name).getD "?"
    (w.listing? c).map fun lines =>
      String.join (((holder ++ ">>" ++ c.signature) :: lines).map (· ++ "\n"))
  (c.family.mapM part).map (Text.joined "\n")

end World

end Parley
