import ContextScan.Text

namespace ContextScan.Json

-- A string with half of a surrogate pair alone is well formed but spells no text.
-- A number keeps its value only if it is written as plain digits.
inductive Lexeme where
  | braceOpen
  | braceClose
  | bracketOpen
  | bracketClose
  | comma
  | colon
  | null
  | bool (value : Bool)
  | natural (value : Nat)
  | number
  | string (content : Option (List Char))
  deriving DecidableEq

def isSpace (c : Char) : Bool := c == ' ' || c == '\t' || c == '\n' || c == '\r'

def isDigit (c : Char) : Bool := decide ('0' ≤ c) && decide (c ≤ '9')

inductive Piece where
  | plain (c : Char)
  | unit (value : Nat)
  deriving DecidableEq

def escape? : Char → Option Char
  | '"' => some '"'
  | '\\' => some '\\'
  | '/' => some '/'
  | 'b' => some '\x08'
  | 'f' => some '\x0c'
  | 'n' => some '\n'
  | 'r' => some '\r'
  | 't' => some '\t'
  | _ => none

def put (piece : Piece) (found : List Piece × List Char) : List Piece × List Char :=
  (piece :: found.1,found.2)

def pieces? : List Char → Option (List Piece × List Char)
  | [] => none
  | '"' :: rest => some ([],rest)
  | '\\' :: 'u' :: a :: b :: c :: d :: rest =>
      (Digit.readHex [a,b,c,d]).bind (fun unit => (pieces? rest).map (put (.unit unit)))
  | '\\' :: e :: rest => (escape? e).bind (fun c => (pieces? rest).map (put (.plain c)))
  | c :: rest => if c < ' ' then none else (pieces? rest).map (put (.plain c))

def isHigh (unit : Nat) : Bool := decide (0xd800 ≤ unit) && decide (unit < 0xdc00)
def isLow (unit : Nat) : Bool := decide (0xdc00 ≤ unit) && decide (unit < 0xe000)

def join : List Piece → Option (List Char)
  | [] => some []
  | .plain c :: rest => (join rest).map (c :: ·)
  | .unit high :: .unit low :: rest =>
      if isHigh high && isLow low then
        (join rest).map (Char.ofNat (0x10000 + (high - 0xd800) * 0x400 + (low - 0xdc00)) :: ·)
      else if isHigh high || isLow high then none
      else (join (.unit low :: rest)).map (Char.ofNat high :: ·)
  | .unit value :: rest =>
      if isHigh value || isLow value then none else (join rest).map (Char.ofNat value :: ·)

def string? (cs : List Char) : Option (Lexeme × List Char) :=
  (pieces? cs).map (fun found => (.string (join found.1),found.2))

def integer? : List Char → Option (Nat × List Char)
  | [] => none
  | c :: cs =>
      if c = '0' then some (0,cs)
      else if isDigit c then some (Nat.ofDigitChars 10 (c :: cs.takeWhile isDigit) 0,cs.dropWhile isDigit)
      else none

def someDigits? (cs : List Char) : Option (List Char) :=
  if cs.head?.any isDigit then some (cs.dropWhile isDigit) else none

def fraction? : List Char → Option (Bool × List Char)
  | '.' :: rest => (someDigits? rest).map (fun after => (true,after))
  | cs => some (false,cs)

def unsign : List Char → List Char
  | '+' :: rest => rest
  | '-' :: rest => rest
  | cs => cs

def exponent? : List Char → Option (Bool × List Char)
  | 'e' :: rest => (someDigits? (unsign rest)).map (fun after => (true,after))
  | 'E' :: rest => (someDigits? (unsign rest)).map (fun after => (true,after))
  | cs => some (false,cs)

def unsigned? (cs : List Char) : Option (Lexeme × List Char) :=
  (integer? cs).bind (fun whole => (fraction? whole.2).bind (fun part => (exponent? part.2).map (fun power =>
    (if part.1 || power.1 then .number else .natural whole.1,power.2))))

def next? : List Char → Option (Lexeme × List Char)
  | '\x7b' :: rest => some (.braceOpen,rest)
  | '\x7d' :: rest => some (.braceClose,rest)
  | '[' :: rest => some (.bracketOpen,rest)
  | ']' :: rest => some (.bracketClose,rest)
  | ',' :: rest => some (.comma,rest)
  | ':' :: rest => some (.colon,rest)
  | 'n' :: 'u' :: 'l' :: 'l' :: rest => some (.null,rest)
  | 't' :: 'r' :: 'u' :: 'e' :: rest => some (.bool true,rest)
  | 'f' :: 'a' :: 'l' :: 's' :: 'e' :: rest => some (.bool false,rest)
  | '"' :: rest => string? rest
  | '-' :: rest => (unsigned? rest).map (fun found => (.number,found.2))
  | cs => unsigned? cs

theorem pieces_shorter {cs rest : List Char} {found : List Piece} (read : pieces? cs = some (found,rest)) :
    rest.length < cs.length := by
  fun_induction pieces? cs generalizing found rest with
  | case1 => cases read
  | case2 => cases read; simp
  | case3 a b c d tail ih =>
      obtain ⟨unit,_,mapped⟩ := Option.bind_eq_some_iff.mp read
      obtain ⟨⟨more,after⟩,inner,same⟩ := Option.map_eq_some_iff.mp mapped
      cases same
      have smaller := ih inner
      simp only [List.length_cons]
      omega
  | case4 e tail _ ih =>
      obtain ⟨c,_,mapped⟩ := Option.bind_eq_some_iff.mp read
      obtain ⟨⟨more,after⟩,inner,same⟩ := Option.map_eq_some_iff.mp mapped
      cases same
      have smaller := ih inner
      simp only [List.length_cons]
      omega
  | case5 => cases read
  | case6 c tail _ _ _ _ ih =>
      obtain ⟨⟨more,after⟩,inner,same⟩ := Option.map_eq_some_iff.mp read
      cases same
      have smaller := ih inner
      simp only [List.length_cons]
      omega

theorem integer_shorter {cs rest : List Char} {n : Nat} (read : integer? cs = some (n,rest)) :
    rest.length < cs.length := by
  cases cs with
  | nil => cases read
  | cons c cs =>
      simp only [integer?] at read
      split at read
      · cases read; exact Nat.lt_succ_self _
      · split at read
        · cases read; exact Nat.lt_succ_of_le (List.dropWhile_sublist _).length_le
        · cases read

theorem someDigits_le {cs rest : List Char} (read : someDigits? cs = some rest) : rest.length ≤ cs.length := by
  unfold someDigits? at read
  split at read
  · cases read; exact (List.dropWhile_sublist _).length_le
  · cases read

theorem unsign_le (cs : List Char) : (unsign cs).length ≤ cs.length := by
  unfold unsign
  split <;> simp

theorem fraction_le {cs rest : List Char} {there : Bool} (read : fraction? cs = some (there,rest)) :
    rest.length ≤ cs.length := by
  unfold fraction? at read
  split at read
  · obtain ⟨after,inner,same⟩ := Option.map_eq_some_iff.mp read
    cases same
    exact Nat.le_succ_of_le (someDigits_le inner)
  · cases read; exact Nat.le_refl _

theorem exponent_le {cs rest : List Char} {there : Bool} (read : exponent? cs = some (there,rest)) :
    rest.length ≤ cs.length := by
  unfold exponent? at read
  split at read
  · obtain ⟨after,inner,same⟩ := Option.map_eq_some_iff.mp read
    cases same
    exact Nat.le_succ_of_le (Nat.le_trans (someDigits_le inner) (unsign_le _))
  · obtain ⟨after,inner,same⟩ := Option.map_eq_some_iff.mp read
    cases same
    exact Nat.le_succ_of_le (Nat.le_trans (someDigits_le inner) (unsign_le _))
  · cases read; exact Nat.le_refl _

theorem unsigned_shorter {cs rest : List Char} {found : Lexeme} (read : unsigned? cs = some (found,rest)) :
    rest.length < cs.length := by
  obtain ⟨⟨n,one⟩,whole,read⟩ := Option.bind_eq_some_iff.mp read
  obtain ⟨⟨there,two⟩,part,read⟩ := Option.bind_eq_some_iff.mp read
  obtain ⟨⟨powered,three⟩,power,same⟩ := Option.map_eq_some_iff.mp read
  cases same
  exact Nat.lt_of_le_of_lt (Nat.le_trans (exponent_le power) (fraction_le part)) (integer_shorter whole)

theorem next_shorter {cs rest : List Char} {found : Lexeme} (read : next? cs = some (found,rest)) :
    rest.length < cs.length := by
  unfold next? at read
  split at read
  case h_10 =>
    obtain ⟨⟨more,after⟩,inner,same⟩ := Option.map_eq_some_iff.mp read
    cases same
    exact Nat.lt_succ_of_lt (pieces_shorter inner)
  case h_11 =>
    obtain ⟨⟨other,after⟩,inner,same⟩ := Option.map_eq_some_iff.mp read
    cases same
    exact Nat.lt_succ_of_lt (unsigned_shorter inner)
  case h_12 => exact unsigned_shorter read
  all_goals cases read; simp only [List.length_cons]; omega

def lexemes? (text : List Char) : Option (List Lexeme) :=
  match solid : text.dropWhile isSpace with
  | [] => some []
  | c :: cs =>
      match read : next? (c :: cs) with
      | none => none
      | some (found,rest) =>
          have _ : rest.length < text.length :=
            Nat.lt_of_lt_of_le (next_shorter read) (solid ▸ (List.dropWhile_sublist isSpace).length_le)
          (lexemes? rest).map (found :: ·)
termination_by text.length

end ContextScan.Json
