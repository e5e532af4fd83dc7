import ContextScan.Span
import ContextScan.Trivia

namespace ContextScan

-- What lies behind is kept nearest first.
structure Place where
  behind : List Char
  ahead : List Char
  offset : Nat
  deriving DecidableEq

namespace Place

def start (text : List Char) : Place := ⟨[],text,0⟩

def text (p : Place) : List Char := p.behind.reverse ++ p.ahead

def Sound (p : Place) : Prop := p.offset = Text.width p.behind

def next : Place → Place
  | ⟨behind,c :: ahead,offset⟩ => ⟨c :: behind,ahead,offset + c.utf8Size⟩
  | p => p

def retreat (limit : Nat) : List Char → List Char → Nat → Place
  | [],ahead,offset => ⟨[],ahead,offset⟩
  | c :: behind,ahead,offset =>
      if offset ≤ limit then ⟨c :: behind,ahead,offset⟩
      else retreat limit behind (c :: ahead) (offset - c.utf8Size)

def proceed (limit : Nat) : List Char → List Char → Nat → Place
  | behind,[],offset => ⟨behind,[],offset⟩
  | behind,c :: ahead,offset =>
      if offset + c.utf8Size ≤ limit then proceed limit (c :: behind) ahead (offset + c.utf8Size)
      else ⟨behind,c :: ahead,offset⟩

-- The last boundary at or before the limit. A limit past the end gives the end;
-- one inside a character gives that character's first byte.
def seek (p : Place) (limit : Nat) : Place :=
  let back := retreat limit p.behind p.ahead p.offset
  proceed limit back.behind back.ahead back.offset

theorem retreat_text (limit : Nat) (behind ahead : List Char) (offset : Nat) :
    (retreat limit behind ahead offset).text = behind.reverse ++ ahead := by
  fun_induction retreat limit behind ahead offset with
  | case1 => rfl
  | case2 => rfl
  | case3 ahead offset c behind _ ih => rw [ih]; simp

theorem proceed_text (limit : Nat) (behind ahead : List Char) (offset : Nat) :
    (proceed limit behind ahead offset).text = behind.reverse ++ ahead := by
  fun_induction proceed limit behind ahead offset with
  | case1 => simp [text]
  | case2 behind offset c ahead _ ih => rw [ih]; simp
  | case3 => rfl

theorem seek_text (p : Place) (limit : Nat) : (p.seek limit).text = p.text := by
  unfold seek
  rw [proceed_text]
  exact retreat_text limit p.behind p.ahead p.offset

theorem next_text (p : Place) : p.next.text = p.text := by
  obtain ⟨behind,ahead,offset⟩ := p
  cases ahead <;> simp [next,text]

end Place

structure Source where
  place : Place
  tokenStart : Nat
  tokenEnd : Option Nat
  hasContent : Bool
  regions : List Region
  deriving DecidableEq

namespace Source

def start (text : List Char) : Source := ⟨.start text,0,none,false,[]⟩

def text (s : Source) : List Char := s.place.text

def pos (s : Source) : UInt32 := UInt32.ofNat s.place.offset

def withRegions (s : Source) (regions : List Region) : Source := {s with regions := regions}

def lookahead (s : Source) : Option Char := s.place.ahead.head?

def startToken (s : Source) : Source :=
  {s with tokenStart := s.place.offset, tokenEnd := none, hasContent := false}

def setPos (s : Source) (offset : UInt32) : Source :=
  startToken {s with place := s.place.seek offset.toNat}

def startAt (text : List Char) (offset : UInt32) : Source := (start text).setPos offset

def advance (s : Source) : Source := {s with place := s.place.next, hasContent := true}

def skip (s : Source) : Source :=
  let place := s.place.next
  {s with place := place, tokenStart := if s.hasContent then s.tokenStart else place.offset}

def markEnd (s : Source) : Source := {s with tokenEnd := some s.place.offset}

def atRegionStart (s : Source) : Bool := s.regions.any (fun region => region.start == s.pos)

-- Trivia skipped after the end was staked never widens the token: it is then
-- empty at the stake.
def tokenSpan (s : Source) : Except Fault (Option Span) :=
  match s.tokenEnd with
  | none => .ok none
  | some stop => (Span.ofBounds (UInt32.ofNat (min s.tokenStart stop)) (UInt32.ofNat stop)).map some

def tokenText (s : Source) : Except Fault (Option (List Char)) :=
  s.tokenSpan.bind (fun
    | none => .ok none
    | some span => span.slice s.text)

-- In a text below 2^32 bytes the span's end is the staked one, which is a boundary,
-- so going back there moves to it as it is.
def finishToken (s : Source) : Except Fault (Option Span × Source) :=
  s.tokenSpan.bind (fun
    | none => .ok (none,s)
    | some span => span.stop.map (fun stop => (some span,s.setPos stop)))

theorem next_shorter (p : Place) (present : (p.ahead.head?).isSome = true) :
    p.next.ahead.length < p.ahead.length := by
  obtain ⟨behind,ahead,offset⟩ := p
  cases ahead with
  | nil => cases present
  | cons c ahead => simp [Place.next]

instance : Cursor Source where
  lookahead := lookahead
  advance := advance
  skip := skip
  markEnd := markEnd
  atRegionStart := atRegionStart
  remaining s := s.place.ahead.length
  advance_lt s present := next_shorter s.place present
  skip_lt s present := next_shorter s.place present
  markEnd_le _ := Nat.le_refl _

end Source
end ContextScan
