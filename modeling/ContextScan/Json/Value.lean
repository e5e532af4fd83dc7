import ContextScan.Json.Lexeme

namespace ContextScan.Json

inductive Value where
  | null
  | bool (value : Bool)
  | natural (value : Nat)
  | number
  | string (content : Option (List Char))
  | array (items : List Value)
  | object (members : List (Option (List Char) × Value))

abbrev Member := Option (List Char) × Value

-- What was read of an open array or object so far is kept newest first.
inductive Frame where
  | items (done : List Value)
  | member (done : List Member) (name : Option (List Char))

-- An array or object just opened may close, but neither may after a comma.
inductive Mode where
  | value
  | firstItem
  | name (done : List Member) (closable : Bool)
  | colon (done : List Member) (name : Option (List Char))
  | full (value : Value)

structure Reader where
  frames : List Frame
  mode : Mode

namespace Reader

def start : Reader := ⟨[],.value⟩

def enter (frames : List Frame) : Lexeme → Option Reader
  | .null => some ⟨frames,.full .null⟩
  | .bool b => some ⟨frames,.full (.bool b)⟩
  | .natural n => some ⟨frames,.full (.natural n)⟩
  | .number => some ⟨frames,.full .number⟩
  | .string content => some ⟨frames,.full (.string content)⟩
  | .bracketOpen => some ⟨frames,.firstItem⟩
  | .braceOpen => some ⟨frames,.name [] true⟩
  | _ => none

def close (v : Value) : List Frame → Lexeme → Option Reader
  | .items done :: frames,.comma => some ⟨.items (v :: done) :: frames,.value⟩
  | .items done :: frames,.bracketClose => some ⟨frames,.full (.array (v :: done).reverse)⟩
  | .member done name :: frames,.comma => some ⟨frames,.name ((name,v) :: done) false⟩
  | .member done name :: frames,.braceClose => some ⟨frames,.full (.object ((name,v) :: done).reverse)⟩
  | _,_ => none

def step (r : Reader) (l : Lexeme) : Option Reader :=
  match r.mode,l with
  | .value,l => enter r.frames l
  | .firstItem,.bracketClose => some ⟨r.frames,.full (.array [])⟩
  | .firstItem,l => enter (.items [] :: r.frames) l
  | .name done _,.string content => some ⟨r.frames,.colon done content⟩
  | .name _ true,.braceClose => some ⟨r.frames,.full (.object [])⟩
  | .colon done name,.colon => some ⟨.member done name :: r.frames,.value⟩
  | .full v,l => close v r.frames l
  | _,_ => none

def run (r : Reader) (ls : List Lexeme) : Option Reader := ls.foldlM step r

def result? : Reader → Option Value
  | ⟨[],.full v⟩ => some v
  | _ => none

theorem run_append (r : Reader) (a b : List Lexeme) : run r (a ++ b) = (run r a).bind (fun after => run after b) := by
  simp [run,List.foldlM_append]

end Reader

def Value.ofText? (text : List Char) : Option Value :=
  (lexemes? text).bind (fun ls => (Reader.start.run ls).bind Reader.result?)

end ContextScan.Json
