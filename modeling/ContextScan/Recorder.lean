import ContextScan.Trivia

namespace ContextScan

inductive Primitive where
  | advance
  | skip
  | markEnd
  deriving DecidableEq

-- Counts characters instead of bytes, and moves on even at the end of input, which
-- shows a recognizer that passes nothing.
structure Recorder where
  ahead : List Char
  pos : Nat
  marked : Option Nat
  record : List Primitive
  starts : List Nat
  deriving DecidableEq

namespace Recorder

def startAt (text : List Char) (pos : Nat) (starts : List Nat) : Recorder :=
  ⟨text.drop pos,pos,none,[],starts⟩

def lookahead (s : Recorder) : Option Char := s.ahead.head?

def pass (primitive : Primitive) (s : Recorder) : Recorder :=
  {s with ahead := s.ahead.tail, pos := s.pos + 1, record := primitive :: s.record}

def markEnd (s : Recorder) : Recorder :=
  {s with marked := some s.pos, record := .markEnd :: s.record}

def atRegionStart (s : Recorder) : Bool := s.starts.contains s.pos

def log (s : Recorder) : List Primitive := s.record.reverse

theorem tail_shorter {cs : List Char} (present : cs.head?.isSome = true) : cs.tail.length < cs.length := by
  cases cs with
  | nil => cases present
  | cons c cs => exact Nat.lt_succ_self _

instance : Cursor Recorder where
  lookahead := lookahead
  advance := pass .advance
  skip := pass .skip
  markEnd := markEnd
  atRegionStart := atRegionStart
  remaining s := s.ahead.length
  advance_lt _ present := tail_shorter present
  skip_lt _ present := tail_shorter present
  markEnd_le _ := Nat.le_refl _

end Recorder
end ContextScan
