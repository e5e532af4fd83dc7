namespace ContextScan.Character

def isLineBreak (c : Char) : Bool :=
  c == '\n' || c == '\r' || c == '\u2028' || c == '\u2029'

def isBlank (c : Char) : Bool :=
  c == ' ' || c == '\t' || c == '\x0b' || c == '\x0c' || c == '\u00a0' || c == '\u1680' ||
  (decide ('\u2000' ≤ c) && decide (c ≤ '\u200a')) ||
  c == '\u202f' || c == '\u205f' || c == '\u3000' || c == '\ufeff'

def isSpace (c : Char) : Bool := isBlank c || isLineBreak c

-- The Unicode property White_Space, for trimming stored text.
def isWhiteSpace (c : Char) : Bool :=
  (decide ('\t' ≤ c) && decide (c ≤ '\r')) || c == ' ' || c == '\u0085' || c == '\u00a0' ||
  c == '\u1680' || (decide ('\u2000' ≤ c) && decide (c ≤ '\u200a')) ||
  c == '\u2028' || c == '\u2029' || c == '\u202f' || c == '\u205f' || c == '\u3000'

-- First on a new line they continue the statement before it.
def continuers : List Char :=
  [',','.',':',';','*','%','^','+','-','/','<','=','>','|','&','?','[','(']

def continuesStatement (c : Char) : Bool := continuers.contains c

theorem lineFeed_space : isSpace '\n' = true := by decide

end ContextScan.Character

namespace ContextScan.Digit

def hex? (c : Char) : Option Nat :=
  if '0' ≤ c ∧ c ≤ '9' then some (c.toNat - '0'.toNat)
  else if 'a' ≤ c ∧ c ≤ 'f' then some (c.toNat - 'a'.toNat + 10)
  else if 'A' ≤ c ∧ c ≤ 'F' then some (c.toNat - 'A'.toNat + 10)
  else none

def readHex (digits : List Char) : Option Nat :=
  digits.foldlM (fun value c => (hex? c).map (16 * value + ·)) 0

def writeDecimal (n : Nat) : List Char := Nat.toDigits 10 n

def writeHex (n : Nat) : List Char := Nat.toDigits 16 n

end ContextScan.Digit

namespace ContextScan.Text

-- Positions in text are byte offsets into its UTF-8 form.
def width : List Char → Nat
  | [] => 0
  | c :: cs => c.utf8Size + width cs

-- None where the count is past the end or falls inside a character.
def splitAt? : Nat → List Char → Option (List Char × List Char)
  | 0,cs => some ([],cs)
  | _+1,[] => none
  | n+1,c :: cs =>
      if c.utf8Size ≤ n + 1 then (splitAt? (n + 1 - c.utf8Size) cs).map (fun pair => (c :: pair.1,pair.2))
      else none

def slice? (start stop : Nat) (cs : List Char) : Option (List Char) :=
  if start ≤ stop then
    (splitAt? start cs).bind (fun outer => (splitAt? (stop - start) outer.2).map Prod.fst)
  else none

def Boundary (n : Nat) (cs : List Char) : Prop := ∃ before after, cs = before ++ after ∧ width before = n

theorem width_append (a b : List Char) : width (a ++ b) = width a + width b := by
  induction a with
  | nil => simp [width]
  | cons c cs ih => simp [width,ih,Nat.add_assoc]

theorem width_reverse (cs : List Char) : width cs.reverse = width cs := by
  induction cs with
  | nil => rfl
  | cons c cs ih => simp [width_append,width,ih,Nat.add_comm]

theorem splitAt_append (a b : List Char) : splitAt? (width a) (a ++ b) = some (a,b) := by
  induction a with
  | nil => simp [width,splitAt?]
  | cons c cs ih =>
      have positive := c.utf8Size_pos
      obtain ⟨n,eq⟩ : ∃ n, width (c :: cs) = n + 1 := ⟨width (c :: cs) - 1,by simp only [width]; omega⟩
      have rest : n + 1 - c.utf8Size = width cs := by simp only [width] at eq; omega
      have fits : c.utf8Size ≤ n + 1 := by simp only [width] at eq; omega
      rw [eq,List.cons_append,splitAt?,if_pos fits,rest,ih]
      rfl

end ContextScan.Text
