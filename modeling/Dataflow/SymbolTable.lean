import Dataflow.Ir.Basic

/-!
# Symbol table

Functions and cells share one space of names. A function keeps the id and the
parameters of its first declaration; declaring a name again only widens its linkage.
Each symbol is defined at most once.
-/

namespace Dataflow

/-- How far a symbol is visible: wanted from elsewhere, kept inside, or offered. -/
inductive Linkage
  | imported
  | internal
  | exported
deriving DecidableEq, Repr

structure FunctionSymbol where
  name : String
  linkage : Linkage
  params : List Ir.Ty
deriving DecidableEq, Repr

structure CellSymbol where
  name : String
  linkage : Linkage
deriving DecidableEq, Repr

inductive SymbolError
  | incompatibleDeclaration (name : String)
  | incompatibleSignature (name : String)
  | duplicateDefinition (name : String)
deriving DecidableEq, Repr

structure SymbolTable where
  /-- The position of a function is its id. -/
  functions : List FunctionSymbol
  cells : List CellSymbol
  definedFunctions : List Nat
  definedCells : List String
deriving DecidableEq, Repr

namespace Linkage

/-- The wider of two linkages. -/
def merge : Linkage → Linkage → Linkage
  | exported, _ | _, exported => exported
  | internal, _ | _, internal => internal
  | imported, imported => imported

def isFinal : Linkage → Bool
  | imported => false
  | internal | exported => true

end Linkage

namespace SymbolError

def name : SymbolError → String
  | incompatibleDeclaration name | incompatibleSignature name | duplicateDefinition name => name

def message : SymbolError → String
  | incompatibleDeclaration name => "incompatible declaration of identifier: " ++ name
  | incompatibleSignature name => "incompatible signature of function: " ++ name
  | duplicateDefinition name => "duplicate definition of identifier: " ++ name

end SymbolError

namespace SymbolTable

def empty : SymbolTable := ⟨[], [], [], []⟩

variable (t : SymbolTable)

def hasCell (name : String) : Bool := t.cells.any fun c => c.name == name

def hasFunction (name : String) : Bool := t.functions.any fun f => f.name == name

def function? (name : String) : Option FunctionSymbol :=
  t.functions.find? fun f => f.name == name

/-- The id of a declared function. -/
def functionId (name : String) : Nat := t.functions.findIdx fun f => f.name == name

def cell? (name : String) : Option CellSymbol := t.cells.find? fun c => c.name == name

/-- Declares a function and gives its id. -/
def declareFunction (name : String) (linkage : Linkage) (params : List Ir.Ty) :
    Except SymbolError Nat × SymbolTable :=
  if t.hasCell name then (.error (.incompatibleDeclaration name), t)
  else
    match t.function? name with
    | some known =>
        let merged := t.functions.map fun f =>
          if f.name = name then { f with linkage := f.linkage.merge linkage } else f
        (if known.params = params then .ok (t.functionId name)
          else .error (.incompatibleSignature name),
          { t with functions := merged })
    | none =>
        (.ok t.functions.length, { t with functions := t.functions ++ [⟨name, linkage, params⟩] })

/-- Declares a cell and gives the linkage it has from now on. -/
def declareCell (name : String) (linkage : Linkage) :
    Except SymbolError Linkage × SymbolTable :=
  if t.hasFunction name then (.error (.incompatibleDeclaration name), t)
  else
    match t.cell? name with
    | some known =>
        let merged := t.cells.map fun c =>
          if c.name = name then { c with linkage := c.linkage.merge linkage } else c
        (.ok (known.linkage.merge linkage), { t with cells := merged })
    | none => (.ok linkage, { t with cells := t.cells ++ [⟨name, linkage⟩] })

/-- The name under which the function with this id is declared. -/
def functionName (id : Nat) : String := (t.functions[id]?.map FunctionSymbol.name).getD ""

/-- Defines the function with this id, whatever name its code was generated under. -/
def defineFunction (id : Nat) : Except SymbolError SymbolTable :=
  if t.definedFunctions.contains id then .error (.duplicateDefinition (t.functionName id))
  else .ok { t with definedFunctions := id :: t.definedFunctions }

def defineCell (name : String) : Except SymbolError SymbolTable :=
  if t.definedCells.contains name then .error (.duplicateDefinition name)
  else .ok { t with definedCells := name :: t.definedCells }

end SymbolTable

end Dataflow
