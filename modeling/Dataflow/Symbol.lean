/-!
# Symbol names

Names that reach the symbol table carry no quotation mark and no NUL, and are kept
apart by a counter where two would meet.
-/

namespace Dataflow.Symbol

def sanitize (name : String) : String :=
  String.ofList (name.toList.filter fun c => c != '"' && c != '\x00')

/-- The symbol of the cell behind an input. -/
def ofInput (node port : String) : String := sanitize node ++ " - " ++ sanitize port

def numbered (base : String) (n : Nat) : String := s!"{base} #{n}"

/-- The name itself, or with the first number from 2 on that makes it new. -/
def unique (base : String) (taken : List String) : String :=
  if taken.contains base then
    (((List.range' 2 (taken.length + 1)).map (numbered base)).find? fun s =>
      !taken.contains s).getD base
  else base

end Dataflow.Symbol
