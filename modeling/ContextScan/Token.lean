import ContextScan.Text

namespace ContextScan

inductive Token where
  | semicolon
  | template
  | ternary
  | markup
  deriving DecidableEq

namespace Token

def all : List Token := [.semicolon,.template,.ternary,.markup]

def symbol : Token → Nat
  | .semicolon => 0
  | .template => 1
  | .ternary => 2
  | .markup => 3

def ofSymbol? (symbol : Nat) : Option Token := all[symbol]?

def name : Token → String
  | .semicolon => "_automatic_semicolon"
  | .template => "_template_chars"
  | .ternary => "_ternary_qmark"
  | .markup => "jsx_text"

def label : Token → String
  | .semicolon => "AutomaticSemicolon"
  | .template => "TemplateChars"
  | .ternary => "TernaryQmark"
  | .markup => "JsxText"

def ofLabel? (label : String) : Option Token := all.find? (fun t => t.label == label)

theorem ofSymbol_symbol (t : Token) : ofSymbol? t.symbol = some t := by cases t <;> rfl

theorem symbol_of_ofSymbol {n : Nat} {t : Token} (found : ofSymbol? n = some t) : t.symbol = n := by
  match n, found with
  | 0,found => cases found; rfl
  | 1,found => cases found; rfl
  | 2,found => cases found; rfl
  | 3,found => cases found; rfl
  | n+4,found => simp [ofSymbol?,all] at found

end Token

-- Bit n is the token with symbol n. The upper four name no token and admit nothing,
-- but a set keeps them as it was given them.
structure TokenSet where
  bits : UInt8
  deriving DecidableEq

namespace TokenSet

def empty : TokenSet := ⟨0⟩

instance : Inhabited TokenSet := ⟨empty⟩

def known : TokenSet := ⟨0x0f⟩

def single : Token → TokenSet
  | .semicolon => ⟨1⟩
  | .template => ⟨2⟩
  | .ternary => ⟨4⟩
  | .markup => ⟨8⟩

def union (a b : TokenSet) : TokenSet := ⟨a.bits ||| b.bits⟩
def inter (a b : TokenSet) : TokenSet := ⟨a.bits &&& b.bits⟩
def diff (a b : TokenSet) : TokenSet := ⟨a.bits &&& ~~~b.bits⟩
def symmDiff (a b : TokenSet) : TokenSet := ⟨a.bits ^^^ b.bits⟩

def compl (a : TokenSet) : TokenSet := inter ⟨~~~a.bits⟩ known

def includes (a b : TokenSet) : Bool := a.bits &&& b.bits == b.bits
def meets (a b : TokenSet) : Bool := a.bits &&& b.bits != 0
def isEmpty (a : TokenSet) : Bool := a.bits == 0
def isAll (a : TokenSet) : Bool := a.includes known

def allows (a : TokenSet) (t : Token) : Bool := a.includes (single t)

def ofTokens (tokens : List Token) : TokenSet :=
  tokens.foldl (fun set t => set.union (single t)) empty

def ofSymbols (entries : List Bool) : TokenSet :=
  ofTokens (((entries.zip Token.all).filter Prod.fst).map Prod.snd)

def ofBits? (bits : UInt8) : Option TokenSet :=
  if bits &&& ~~~known.bits = 0 then some ⟨bits⟩ else none

def truncate (bits : UInt8) : TokenSet := inter ⟨bits⟩ known

def flags : List (String × TokenSet) :=
  [("AUTOMATIC_SEMICOLON",single .semicolon),("TEMPLATE_CHARS",single .template),
    ("TERNARY_QMARK",single .ternary),("JSX_TEXT",single .markup)]

def members (a : TokenSet) : List (String × TokenSet) :=
  flags.filter (fun flag => a.includes flag.2)

theorem bits_injective {a b : TokenSet} (same : a.bits = b.bits) : a = b := by
  cases a; cases b; cases same; rfl

def unnamedText (a : TokenSet) : List String :=
  let rest := a.diff known
  if rest.isEmpty then [] else ["0x" ++ String.ofList (Digit.writeHex rest.bits.toNat)]

def text (a : TokenSet) : String :=
  " | ".intercalate (a.members.map Prod.fst ++ unnamedText a)

def shown (a : TokenSet) : String :=
  "ValidTokens(" ++ (if a.isEmpty then "0x0" else a.text) ++ ")"

def trim (cs : List Char) : List Char :=
  ((cs.dropWhile Character.isWhiteSpace).reverse.dropWhile Character.isWhiteSpace).reverse

def parts : List Char → List (List Char)
  | [] => [[]]
  | c :: cs =>
      match parts cs with
      | [] => [[c]]
      | first :: rest => if c = '|' then [] :: first :: rest else (c :: first) :: rest

-- One sign may stand before the digits. A number past eight bits is refused.
def unsigned? : List Char → Option TokenSet
  | '+' :: digits => magnitude? digits
  | digits => magnitude? digits
where
  magnitude? (digits : List Char) : Option TokenSet :=
    if digits.isEmpty then none
    else (Digit.readHex digits).bind (fun n => if n < 256 then some ⟨n.toUInt8⟩ else none)

def named? (name : List Char) : Option TokenSet :=
  ((("NONE",empty) :: flags).find? (fun flag => flag.1.toList == name)).map Prod.snd

def part? : List Char → Option TokenSet
  | '0' :: 'x' :: digits => unsigned? digits
  | name => named? name

def ofText? (text : List Char) : Option TokenSet :=
  let body := trim text
  if body.isEmpty then some empty
  else (parts body).foldlM (fun set part => (part? (trim part)).map set.union) empty

end TokenSet

inductive Event where
  | suppressed
  | scanned (valid : TokenSet) (result : Option Token)
  | rejected (length : Nat)
  deriving DecidableEq

namespace Event

inductive Level where
  | trace
  | debug
  deriving DecidableEq

def Level.name : Level → String
  | .trace => "TRACE"
  | .debug => "DEBUG"

def level : Event → Level
  | .suppressed | .scanned .. => .trace
  | .rejected _ => .debug

def message : Event → String
  | .suppressed => "semicolon suppressed before `?`"
  | .scanned .. => "contextual scan"
  | .rejected _ => "rejecting non-empty scanner snapshot"

def resultText : Option Token → String
  | none => "None"
  | some t => "Some(" ++ t.label ++ ")"

def fields : Event → List (String × String)
  | .suppressed => []
  | .scanned valid result => [("valid",valid.shown),("result",resultText result)]
  | .rejected length => [("len",toString length)]

end Event
end ContextScan
