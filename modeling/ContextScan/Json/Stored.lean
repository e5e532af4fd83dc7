import ContextScan.Json.Value
import ContextScan.Span
import ContextScan.Token

namespace ContextScan.Json.Record

def quoted (name : List Char) : List Char := '"' :: name ++ ['"']

def member (name : List Char) (n : UInt32) : List Char :=
  quoted name ++ ':' :: Digit.writeDecimal n.toNat

def write (first second : List Char) (a b : UInt32) : List Char :=
  '\x7b' :: member first a ++ ',' :: member second b ++ ['\x7d']

def word? : Value → Option UInt32
  | .natural n => if n < UInt32.size then some (UInt32.ofNat n) else none
  | _ => none

def field? (name : List Char) (members : List Member) : Option UInt32 :=
  match members.filter (fun m => m.1 == some name) with
  | [m] => word? m.2
  | _ => none

-- Fields of other names are passed over, but every name must spell a text. The two
-- numbers alone, in order, are read as well.
def read? (first second : List Char) : Value → Option (UInt32 × UInt32)
  | .array [a,b] => (word? a).bind (fun a => (word? b).map (fun b => (a,b)))
  | .object members =>
      if members.all (fun m => m.1.isSome) then
        (field? first members).bind (fun a => (field? second members).map (fun b => (a,b)))
      else none
  | _ => none

end ContextScan.Json.Record

namespace ContextScan

namespace Span

def stored (s : Span) : List Char := Json.Record.write "start".toList "length".toList s.start s.length

def ofStored? (text : List Char) : Option Span :=
  ((Json.Value.ofText? text).bind (Json.Record.read? "start".toList "length".toList)).map
    (fun pair => ⟨pair.1,pair.2⟩)

end Span

namespace Region

def stored (r : Region) : List Char := Json.Record.write "pos".toList "end".toList r.start r.stop

def ofStored? (text : List Char) : Option Region :=
  ((Json.Value.ofText? text).bind (Json.Record.read? "pos".toList "end".toList)).map
    (fun pair => ⟨pair.1,pair.2⟩)

end Region

namespace Token

def stored (t : Token) : List Char := Json.Record.quoted t.label.toList

def ofValue? : Json.Value → Option Token
  | .string (some label) => ofLabel? (String.ofList label)
  | .object [(some label,.null)] => ofLabel? (String.ofList label)
  | _ => none

def ofStored? (text : List Char) : Option Token := (Json.Value.ofText? text).bind ofValue?

end Token

namespace TokenSet

def stored (a : TokenSet) : List Char := Json.Record.quoted a.text.toList

def ofValue? : Json.Value → Option TokenSet
  | .string (some text) => ofText? text
  | _ => none

def ofStored? (text : List Char) : Option TokenSet := (Json.Value.ofText? text).bind ofValue?

end TokenSet
end ContextScan
