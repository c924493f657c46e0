import Dataflow.Ir.Basic
import Dataflow.Binary.Format
import Dataflow.Bytes

/-!
# Text of intermediate code

One line per instruction. Where an operand is a constant, its value follows the line
in a comment.
-/

namespace Dataflow.Ir

def hexDigits (width n : Nat) : String :=
  let digits := Nat.toDigits 16 n
  String.ofList (List.replicate (width - digits.length) '0' ++ digits)

/-- Hexadecimal digits in groups of four, the first group filled up with zeros. -/
def hexGroups (n : Nat) : String :=
  let groups := ((Nat.toDigits 16 n).length + 3) / 4
  "0x" ++ String.intercalate "_" ((List.range groups).map fun k =>
    hexDigits 4 (n / Nat.pow 2 (16 * (groups - 1 - k)) % 0x10000))

/-- Small and negative numbers are decimal, the others hexadecimal. -/
def intText (n : Int) : String := if n < 10000 then Int.repr n else hexGroups n.toNat

def nanText (f : FloatFormat) (magnitude : Nat) : String :=
  let payload := magnitude % f.quietBit
  if magnitude / f.quietBit % 2 = 1 then
    if payload = 0 then "NaN" else "NaN:0x" ++ hexDigits 0 payload
  else "sNaN:0x" ++ hexDigits 0 payload

/-- The fraction is shifted up to a whole number of hexadecimal digits. -/
def fractionText (f : FloatFormat) (magnitude : Nat) : String :=
  let digits := (f.fractionBits + 3) / 4
  let fraction := magnitude % f.leadingBit
  hexDigits digits (fraction * Nat.pow 2 (4 * digits - f.fractionBits))

/-- Floating-point constants are exact: a hexadecimal fraction and a power of two. -/
def floatText (f : FloatFormat) (x : BitVec f.width) : String :=
  let m := FloatFormat.magnitude x
  let sign := if x.msb then "-" else ""
  let explicitSign := if x.msb then "-" else "+"
  let field := m / f.leadingBit
  if FloatFormat.isNaN x then explicitSign ++ nanText f m
  else if FloatFormat.isInfinite x then explicitSign ++ "Inf"
  else if m = 0 then sign ++ "0.0"
  else if field = 0 then
    sign ++ "0x0." ++ fractionText f m ++ "p" ++ Int.repr (1 - (f.bias : Int))
  else sign ++ "0x1." ++ fractionText f m ++ "p" ++ Int.repr ((field : Int) - f.bias)

def varText (v : Var) : String := "v" ++ Nat.repr v

def varsText (vs : List Var) : String := String.intercalate ", " (vs.map varText)

def IntOp.name : IntOp → String
  | add => "iadd"
  | sub => "isub"
  | mul => "imul"
  | sdiv => "sdiv"
  | smin => "smin"
  | smax => "smax"
  | or => "bor"

def FloatOp.name : FloatOp → String
  | add => "fadd"
  | sub => "fsub"
  | mul => "fmul"
  | div => "fdiv"
  | min => "fmin"
  | max => "fmax"

def Cond.floatName : Cond → String
  | lt => "lt"
  | le => "le"
  | gt => "gt"
  | ge => "ge"
  | eq => "eq"
  | ne => "ne"

def Cond.intName : Cond → String
  | lt => "slt"
  | le => "sle"
  | gt => "sgt"
  | ge => "sge"
  | eq => "eq"
  | ne => "ne"

def addressText (base : Var) (offset : Nat) : String :=
  varText base ++ if offset = 0 then "" else "+" ++ intText offset

namespace Operation

def operands : Operation → List Var
  | intConst _ _ | f32Const _ | f64Const _ => []
  | int _ x y | float _ x y | compareInt _ x y | compareFloat _ x y => [x, y]
  | negate x | equalsImm x _ => [x]
  | select c x y => [c, x, y]
  | load _ base _ => [base]
  | globalAddress _ | slotAddress _ | slotLoad _ _ => []

def constantText? : Operation → Option String
  | intConst _ imm => some (intText imm)
  | f32Const bits => some (floatText binary32 bits)
  | f64Const bits => some (floatText binary64 bits)
  | _ => none

def text : Operation → String
  | intConst ty imm => "iconst." ++ ty.name ++ " " ++ intText imm
  | f32Const bits => "f32const " ++ floatText binary32 bits
  | f64Const bits => "f64const " ++ floatText binary64 bits
  | int op x y => op.name ++ " " ++ varsText [x, y]
  | float op x y => op.name ++ " " ++ varsText [x, y]
  | negate x => "ineg " ++ varText x
  | compareInt cond x y => "icmp " ++ cond.intName ++ " " ++ varsText [x, y]
  | compareFloat cond x y => "fcmp " ++ cond.floatName ++ " " ++ varsText [x, y]
  | equalsImm x imm => "icmp_imm eq " ++ varText x ++ ", " ++ intText imm
  | select c x y => "select " ++ varsText [c, x, y]
  | load ty base offset =>
      "load." ++ ty.name ++ " notrap aligned " ++ addressText base offset
  | globalAddress index => "symbol_value.i64 gv" ++ Nat.repr index
  | slotAddress slot => "stack_addr.i64 ss" ++ Nat.repr slot
  | slotLoad ty slot => "stack_load." ++ ty.name ++ " ss" ++ Nat.repr slot

end Operation

namespace Instr

def operands : Instr → List Var
  | define _ op => op.operands
  | store value base _ => [value, base]
  | call _ args => args

def text : Instr → String
  | define var op => varText var ++ " = " ++ op.text
  | store value base offset =>
      "store notrap aligned " ++ varText value ++ ", " ++ addressText base offset
  | call callee args => "call fn" ++ Nat.repr callee ++ "(" ++ varsText args ++ ")"

def constant? : Instr → Option (Var × String)
  | define var op => op.constantText?.map fun text => (var, text)
  | _ => none

end Instr

namespace Terminator

def operands : Terminator → List Var
  | jump _ args => args
  | branch cond _ _ => [cond]
  | leave => []

def text : Terminator → String
  | jump block args =>
      "jump block" ++ Nat.repr block
        ++ if args.isEmpty then "" else "(" ++ varsText args ++ ")"
  | branch cond ifTrue ifFalse =>
      "brif " ++ varText cond ++ ", block" ++ Nat.repr ifTrue ++ ", block" ++ Nat.repr ifFalse
  | leave => "return"

end Terminator

def commentText (constants : List (Var × String)) (operands : List Var) : String :=
  let known := operands.filterMap fun v =>
    (constants.lookup v).map fun text => varText v ++ " = " ++ text
  if known.isEmpty then "" else "  ; " ++ String.intercalate ", " known

def lineText (constants : List (Var × String)) (operands : List Var) (text : String) :
    String :=
  "    " ++ text ++ commentText constants operands ++ "\n"

def Block.text (constants : List (Var × String)) (index : Nat) (b : Block) : String :=
  let params := b.params.map fun (v, ty) => varText v ++ ": " ++ ty.name
  "block" ++ Nat.repr index
    ++ (if params.isEmpty then "" else "(" ++ String.intercalate ", " params ++ ")") ++ ":\n"
    ++ String.join (b.body.map fun i => lineText constants i.operands i.text)
    ++ lineText constants b.terminator.operands b.terminator.text

def typesText (types : List Ty) : String := String.intercalate ", " (types.map Ty.name)

namespace Function

def slotText (index size : Nat) : String :=
  s!"    ss{index} = explicit_slot {size}"
    ++ (if size = 1 then "" else s!", align = {size}") ++ "\n"

def globalText (index : Nat) (g : Global) : String :=
  s!"    gv{index} = symbol " ++ (if g.colocated then "colocated " else "")
    ++ s!"userextname{g.number}\n"

def signatureText (index : Nat) (c : Callee) : String :=
  s!"    sig{index} = (" ++ typesText c.params ++ ") system_v\n"

def calleeText (index : Nat) (c : Callee) : String :=
  s!"    fn{index} = colocated u0:{c.id} sig{index}\n"

variable (f : Function)

/-- What stands before the blocks: slots, cells, signatures and callees. -/
def preamble : String :=
  let lines := f.slots.mapIdx slotText ++ f.globals.mapIdx globalText
    ++ f.callees.mapIdx signatureText ++ f.callees.mapIdx calleeText
  if lines.isEmpty then "" else String.join lines ++ "\n"

def text : String :=
  let constants := f.blocks.flatMap fun b => b.body.filterMap Instr.constant?
  "function u0:" ++ Nat.repr f.id ++ "(" ++ typesText f.params ++ ") system_v \x7b\n"
    ++ f.preamble
    ++ String.intercalate "\n" (f.blocks.mapIdx (Block.text constants))
    ++ "\x7d\n"

end Function

end Dataflow.Ir
