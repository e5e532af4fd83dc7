import ContextScan.Scan
import ContextScan.Source

namespace ContextScan

inductive Request where
  | advance
  | skip
  | markEnd
  | startToken
  | setPos (offset : UInt32)
  | finishToken
  | isEof
  | text
  | regions (regions : List Region)
  | save
  | restore (back : Nat := 0)
  | scan (valid : TokenSet)

inductive Reply where
  | done
  | span (span : Option Span)
  | flag (value : Bool)
  | text (text : List Char)
  | token (token : Option Token)

-- Copies are kept latest first.
structure Session where
  current : Source
  kept : List Source
  deriving DecidableEq

namespace Session

def start (s : Source) : Session := ⟨s,[s]⟩

def perform (s : Session) : Request → Except Fault (Session × Reply)
  | .advance => .ok ({s with current := s.current.advance},.done)
  | .skip => .ok ({s with current := s.current.skip},.done)
  | .markEnd => .ok ({s with current := s.current.markEnd},.done)
  | .startToken => .ok ({s with current := s.current.startToken},.done)
  | .setPos offset => .ok ({s with current := s.current.setPos offset},.done)
  | .finishToken =>
      s.current.finishToken.map (fun finished => ({s with current := finished.2},.span finished.1))
  | .isEof => .ok (s,.flag (Cursor.isEof s.current))
  | .text => .ok (s,.text s.current.text)
  | .regions regions => .ok ({s with current := s.current.withRegions regions},.done)
  | .save => .ok ({s with kept := s.current :: s.kept},.done)
  | .restore back => .ok ({s with current := s.kept.getD back s.current},.done)
  | .scan valid =>
      let result := scan valid s.current
      .ok ({s with current := result.cursor},.token result.token)

def run : Session → List Request → Except Fault Session
  | s,[] => .ok s
  | s,request :: rest => (s.perform request).bind (fun result => run result.1 rest)

def transcript : Session → List Request → Except Fault (List (Reply × Source))
  | _,[] => .ok []
  | s,request :: rest => (s.perform request).bind (fun result =>
      (transcript result.1 rest).map ((result.2,result.1.current) :: ·))

end Session
end ContextScan
