import ContextScan.Scan
import ContextScan.Source

namespace ContextScan.Host

structure Step where
  began : UInt32
  token : Option Token
  seen : UInt32
  span : Option Span
  text : Option (List Char)
  deriving DecidableEq

inductive Turn where
  | onward (cursor : Source)
  | done (cursor : Source)
  deriving DecidableEq

-- The host counts in 32 bits as the cursor does, so its own sum may overflow.
def stepOver (s : Source) (c : Char) : Except Fault Source :=
  (Offset.add s.pos (UInt32.ofNat c.utf8Size)).map s.setPos

def turn (taken : Bool) (after : Source) : Except Fault Turn :=
  if taken then .ok (.onward after)
  else match after.lookahead with
    | none => .ok (.done after)
    | some c => (stepOver after c).map .onward

def step (valid : TokenSet) (s : Source) : Except Fault (Step × Turn) := do
  let found := scan valid s
  let (span,after) ← found.cursor.finishToken
  let text ← match span with
    | none => pure none
    | some span => span.slice s.text
  let taken := found.token.isSome && span.any (fun span => !span.isEmpty)
  let next ← turn taken after
  pure (⟨s.pos,found.token,found.cursor.pos,span,text⟩,next)

inductive Walk where
  | ended (steps : List Step) (cursor : Source)
  | cut (steps : List Step) (cursor : Source)
  deriving DecidableEq

def Walk.steps : Walk → List Step
  | .ended steps _ => steps
  | .cut steps _ => steps

def Walk.after (first : Step) : Walk → Walk
  | .ended steps cursor => .ended (first :: steps) cursor
  | .cut steps cursor => .cut (first :: steps) cursor

def rotate : List TokenSet → List TokenSet
  | [] => []
  | valid :: rest => rest ++ [valid]

def walkFor : Nat → List TokenSet → Source → Except Fault Walk
  | 0,_,s => .ok (.cut [] s)
  | rounds+1,sets,s => do
      let (first,turn) ← step (sets.headD .empty) s
      match turn with
      | .done s => pure (.ended [first] s)
      | .onward s => (walkFor rounds (rotate sets) s).map (Walk.after first)

-- One round for each character ahead, and one more sees the end.
def walk (sets : List TokenSet) (s : Source) : Except Fault Walk :=
  walkFor (s.place.ahead.length + 1) sets s

structure Probe where
  token : Option Token
  pos : UInt32
  span : Option Span
  deriving DecidableEq

def probe (valid : TokenSet) (s : Source) : Except Fault Probe :=
  let found := scan valid s
  found.cursor.tokenSpan.map (fun span => ⟨found.token,found.cursor.pos,span⟩)

def sweep (text : List Char) (valid : TokenSet) (regions : List Region) : Except Fault (List Probe) :=
  (List.range (Text.width text + 2)).mapM (fun n =>
    probe valid ((Source.startAt text (UInt32.ofNat n)).withRegions regions))

end ContextScan.Host
