import ContextScan.Json.Value
import ContextScan.Proofs.Json.Spelling

namespace ContextScan.Json

theorem Value.size_item {items : List Value} (inside : v ∈ items) : sizeOf v < sizeOf (Value.array items) := by
  have smaller := List.sizeOf_lt_of_mem inside
  rw [Value.array.sizeOf_spec]
  omega

theorem Value.size_member {members : List Member} {m : Member} (inside : m ∈ members) :
    sizeOf m.2 < sizeOf (Value.object members) := by
  have smaller := List.sizeOf_lt_of_mem inside
  obtain ⟨name,v⟩ := m
  rw [Prod.mk.sizeOf_spec] at smaller
  change sizeOf v < _
  rw [Value.object.sizeOf_spec]
  omega

def commas : List (List Lexeme) → List Lexeme
  | [] => []
  | first :: rest => first ++ rest.flatMap (.comma :: ·)

-- A value as it is written, apart from white space and from how each lexeme is spelled.
def Value.lexemes : Value → List Lexeme
  | .null => [.null]
  | .bool b => [.bool b]
  | .natural n => [.natural n]
  | .number => [.number]
  | .string content => [.string content]
  | .array items => .bracketOpen :: (commas (items.map (fun v => v.lexemes)) ++ [.bracketClose])
  | .object members =>
      .braceOpen :: (commas (members.map (fun m => .string m.1 :: .colon :: m.2.lexemes)) ++ [.braceClose])
termination_by v => sizeOf v
decreasing_by
  · exact Value.size_item ‹_›
  · exact Value.size_member ‹_›

def Member.lexemes (m : Member) : List Lexeme := .string m.1 :: .colon :: m.2.lexemes

def Written (v : Value) (text : List Char) : Prop := Laid v.lexemes text

theorem Value.nested {P : Value → Prop} (null : P .null) (bool : ∀ b, P (.bool b)) (natural : ∀ n, P (.natural n))
    (number : P .number) (string : ∀ content, P (.string content))
    (array : ∀ items, (∀ v ∈ items, P v) → P (.array items))
    (object : ∀ members : List Member, (∀ m ∈ members, P m.2) → P (.object members)) : ∀ v, P v
  | .null => null
  | .bool b => bool b
  | .natural n => natural n
  | .number => number
  | .string content => string content
  | .array items => array items (fun v _ => nested null bool natural number string array object v)
  | .object members => object members (fun m _ => nested null bool natural number string array object m.2)
termination_by v => sizeOf v
decreasing_by
  · exact Value.size_item ‹_›
  · exact Value.size_member ‹_›

theorem lexemes_array (items : List Value) :
    (Value.array items).lexemes = .bracketOpen :: (commas (items.map Value.lexemes) ++ [.bracketClose]) := by
  rw [Value.lexemes]

theorem lexemes_object (members : List Member) :
    (Value.object members).lexemes = .braceOpen :: (commas (members.map Member.lexemes) ++ [.braceClose]) := by
  rw [Value.lexemes]
  rfl

theorem lexemes_front (v : Value) : ∃ first rest, v.lexemes = first :: rest ∧ first ≠ .bracketClose := by
  cases v with
  | array items => exact ⟨_,_,lexemes_array items,by decide⟩
  | object members => exact ⟨_,_,lexemes_object members,by decide⟩
  | _ => exact ⟨_,_,by rw [Value.lexemes],by simp⟩

namespace Reader

variable {frames : List Frame} {r r' : Reader} {ls : List Lexeme}

theorem run_cons (r : Reader) (l : Lexeme) (ls : List Lexeme) : r.run (l :: ls) = (r.step l).bind (fun after => after.run ls) :=
  List.foldlM_cons

-- The first item is read like any other, once it is known that the array does not close.
theorem step_firstItem (frames : List Frame) {l : Lexeme} (other : l ≠ .bracketClose) :
    step ⟨frames,.firstItem⟩ l = step ⟨.items [] :: frames,.value⟩ l := by
  cases l with
  | bracketClose => exact absurd rfl other
  | _ => rfl

theorem run_items (items : List Value)
    (inner : ∀ v ∈ items, ∀ frames, run ⟨frames,.value⟩ v.lexemes = some ⟨frames,.full v⟩)
    (frames : List Frame) (done : List Value) (v : Value) :
    run ⟨.items done :: frames,.full v⟩ ((items.map Value.lexemes).flatMap (.comma :: ·) ++ [.bracketClose]) =
      some ⟨frames,.full (.array (done.reverse ++ v :: items))⟩ := by
  induction items generalizing done v with
  | nil => simp [run,step,close]
  | cons next rest ih =>
      have later := ih (fun w inside => inner w (List.mem_cons_of_mem _ inside)) (v :: done) next
      rw [List.map_cons,List.flatMap_cons,List.append_assoc,List.cons_append,run_cons]
      change run ⟨.items (v :: done) :: frames,.value⟩ _ = _
      rw [run_append,inner next List.mem_cons_self,Option.bind_some,later]
      simp

theorem run_members (members : List Member)
    (inner : ∀ m ∈ members, ∀ frames, run ⟨frames,.value⟩ m.2.lexemes = some ⟨frames,.full m.2⟩)
    (frames : List Frame) (done : List Member) (name : Option (List Char)) (v : Value) :
    run ⟨.member done name :: frames,.full v⟩ ((members.map Member.lexemes).flatMap (.comma :: ·) ++ [.braceClose]) =
      some ⟨frames,.full (.object (done.reverse ++ (name,v) :: members))⟩ := by
  induction members generalizing done name v with
  | nil => simp [run,step,close]
  | cons next rest ih =>
      have later := ih (fun m inside => inner m (List.mem_cons_of_mem _ inside)) ((name,v) :: done) next.1 next.2
      rw [List.map_cons,List.flatMap_cons,List.append_assoc,List.cons_append,run_cons]
      change run ⟨.member ((name,v) :: done) next.1 :: frames,.value⟩ (next.2.lexemes ++ _) = _
      rw [run_append,inner next List.mem_cons_self,Option.bind_some,later]
      simp

-- Whatever is open around it, a written value is read to its end.
theorem run_lexemes (v : Value) (frames : List Frame) : run ⟨frames,.value⟩ v.lexemes = some ⟨frames,.full v⟩ := by
  induction v using Value.nested generalizing frames with
  | array items inner =>
      rw [lexemes_array,run_cons]
      change run ⟨frames,.firstItem⟩ _ = _
      cases items with
      | nil => rfl
      | cons v rest =>
          obtain ⟨first,more,front,other⟩ := lexemes_front v
          have read : run ⟨frames,.firstItem⟩ v.lexemes = some ⟨.items [] :: frames,.full v⟩ := by
            rw [front,run_cons,step_firstItem frames other,← run_cons,← front]
            exact inner v List.mem_cons_self _
          rw [List.map_cons,commas,List.append_assoc,run_append,read,Option.bind_some]
          exact run_items rest (fun w inside => inner w (List.mem_cons_of_mem _ inside)) frames [] v
  | object members inner =>
      rw [lexemes_object,run_cons]
      change run ⟨frames,.name [] true⟩ _ = _
      cases members with
      | nil => rfl
      | cons m rest =>
          rw [List.map_cons,commas,List.append_assoc]
          change run ⟨.member [] m.1 :: frames,.value⟩ (m.2.lexemes ++ _) = _
          rw [run_append,inner m List.mem_cons_self,Option.bind_some]
          exact run_members rest (fun n inside => inner n (List.mem_cons_of_mem _ inside)) frames [] m.1 m.2
  | _ => rw [Value.lexemes]; rfl

theorem close_other {v : Value} (closed : close v frames l = some r) : ¬Numeric l := by
  unfold close at closed
  split at closed
  case h_5 => cases closed
  all_goals exact id

theorem step_full {l : Lexeme} (numeric : Numeric l) (stepped : r.step l = some r') : ∃ frames v, r' = ⟨frames,.full v⟩ := by
  obtain ⟨frames,mode⟩ := r
  cases mode with
  | value => cases l <;> cases numeric <;> cases stepped <;> exact ⟨_,_,rfl⟩
  | firstItem => cases l <;> cases numeric <;> cases stepped <;> exact ⟨_,_,rfl⟩
  | name => cases l <;> cases numeric <;> cases stepped
  | colon => cases l <;> cases numeric <;> cases stepped
  | full v => exact absurd numeric (close_other stepped)

theorem run_apart (ran : r.run ls = some r') : Apart ls := by
  induction ls generalizing r with
  | nil => trivial
  | cons l ls ih =>
      rw [run_cons] at ran
      obtain ⟨after,stepped,ran⟩ := Option.bind_eq_some_iff.mp ran
      have later := ih ran
      cases ls with
      | nil => trivial
      | cons next ls =>
          refine ⟨?_,later⟩
          intro numeric
          rw [run_cons] at ran
          obtain ⟨_,second,_⟩ := Option.bind_eq_some_iff.mp ran
          obtain ⟨frames,v,rfl⟩ := step_full numeric stepped
          exact close_other second

end Reader

theorem commas_cons (first second : List Lexeme) (rest : List (List Lexeme)) :
    commas (first :: second :: rest) = first ++ .comma :: commas (second :: rest) := by
  simp [commas]

theorem commas_last (parts : List (List Lexeme)) (last : List Lexeme) :
    parts.flatMap (· ++ [.comma]) ++ last = commas (parts ++ [last]) := by
  induction parts with
  | nil => simp [commas]
  | cons first rest ih =>
      cases rest with
      | nil => simp [commas]
      | cons second rest =>
          rw [List.cons_append,List.cons_append,commas_cons,← List.cons_append,← ih]
          simp

-- What has been read so far: the part of each open array or object that is complete,
-- from the outermost in, and the value at hand.
def Frame.read : Frame → List Lexeme
  | .items done => .bracketOpen :: (done.reverse.map Value.lexemes).flatMap (· ++ [.comma])
  | .member done called =>
      .braceOpen :: ((done.reverse.map Member.lexemes).flatMap (· ++ [.comma]) ++ [.string called,.colon])

def Mode.read : Mode → List Lexeme
  | .value => []
  | .firstItem => [.bracketOpen]
  | .name done _ => .braceOpen :: (done.reverse.map Member.lexemes).flatMap (· ++ [.comma])
  | .colon done called => .braceOpen :: ((done.reverse.map Member.lexemes).flatMap (· ++ [.comma]) ++ [.string called])
  | .full v => v.lexemes

namespace Reader

variable {frames : List Frame} {r r' : Reader} {l : Lexeme} {ls : List Lexeme}

def read (r : Reader) : List Lexeme := (r.frames.reverse.flatMap Frame.read) ++ r.mode.read

-- Only an object with nothing in it may close where a name may come.
def Sound (r : Reader) : Prop := ∀ done, r.mode = .name done true → done = []

theorem full_sound (frames : List Frame) (v : Value) : Sound ⟨frames,.full v⟩ := fun _ same => nomatch same

theorem enter_read (frames : List Frame) (entered : enter frames l = some r) :
    r.Sound ∧ r.read = frames.reverse.flatMap Frame.read ++ [l] := by
  cases l <;> cases entered <;> refine ⟨?_,?_⟩ <;> simp [Sound,read,Mode.read,Value.lexemes]

theorem close_read {v : Value} (closed : close v frames l = some r) :
    r.Sound ∧ r.read = frames.reverse.flatMap Frame.read ++ v.lexemes ++ [l] := by
  unfold close at closed
  split at closed
  · cases closed
    refine ⟨fun _ same => (nomatch same),?_⟩
    simp [read,Mode.read,Frame.read]
  · rename_i done frames
    cases closed
    refine ⟨full_sound _ _,?_⟩
    rw [read,Mode.read,lexemes_array,List.reverse_cons,List.map_append,List.map_singleton,← commas_last]
    simp [Frame.read]
  · cases closed
    refine ⟨fun _ same => (nomatch same),?_⟩
    simp [read,Mode.read,Frame.read,Member.lexemes]
  · rename_i done name frames
    cases closed
    refine ⟨full_sound _ _,?_⟩
    rw [read,Mode.read,lexemes_object,List.reverse_cons,List.map_append,List.map_singleton,← commas_last]
    simp [Frame.read,Member.lexemes]
  · cases closed

theorem step_read (sound : r.Sound) (stepped : r.step l = some r') : r'.Sound ∧ r'.read = r.read ++ [l] := by
  obtain ⟨frames,mode⟩ := r
  cases mode with
  | value => simpa [read,Mode.read] using enter_read frames stepped
  | firstItem =>
      by_cases empty : l = .bracketClose
      · subst empty
        cases stepped
        refine ⟨full_sound _ _,?_⟩
        rw [read,read,Mode.read,Mode.read,lexemes_array]
        simp [commas]
      · rw [step_firstItem frames empty] at stepped
        simpa [read,Mode.read,Frame.read] using enter_read (.items [] :: frames) stepped
  | name done closable =>
      cases l with
      | string content =>
          cases stepped
          refine ⟨fun _ same => (nomatch same),?_⟩
          simp [read,Mode.read]
      | braceClose =>
          cases closable with
          | true =>
              cases stepped
              refine ⟨full_sound _ _,?_⟩
              rw [sound done rfl,read,read,Mode.read,Mode.read,lexemes_object]
              simp [commas]
          | false => cases stepped
      | _ => cases stepped
  | colon done name =>
      cases l with
      | colon =>
          cases stepped
          refine ⟨fun _ same => (nomatch same),?_⟩
          simp [read,Mode.read,Frame.read]
      | _ => cases stepped
  | full v => simpa [read,Mode.read] using close_read stepped

theorem run_read (sound : r.Sound) (ran : r.run ls = some r') : r'.Sound ∧ r'.read = r.read ++ ls := by
  induction ls generalizing r with
  | nil =>
      cases ran
      exact ⟨sound,(List.append_nil _).symm⟩
  | cons l ls ih =>
      rw [run_cons] at ran
      obtain ⟨after,stepped,ran⟩ := Option.bind_eq_some_iff.mp ran
      obtain ⟨onward,read⟩ := step_read sound stepped
      obtain ⟨ended,whole⟩ := ih onward ran
      refine ⟨ended,?_⟩
      rw [whole,read,List.append_assoc]
      rfl

theorem result_full {v : Value} (done : result? r = some v) : r = ⟨[],.full v⟩ := by
  unfold result? at done
  split at done
  · cases done; rfl
  · cases done

end Reader

-- A text is read as a value where it is written as that value, and only there.
theorem ofText_exact (v : Value) (text : List Char) : Value.ofText? text = some v ↔ Written v text := by
  constructor
  · intro read
    obtain ⟨ls,found,read⟩ := Option.bind_eq_some_iff.mp read
    obtain ⟨r,ran,done⟩ := Option.bind_eq_some_iff.mp read
    have start : Reader.start.Sound := fun _ same => nomatch same
    obtain ⟨_,whole⟩ := Reader.run_read start ran
    rw [Reader.result_full done] at whole
    have same : v.lexemes = ls := whole
    rw [Written,same]
    exact lexemes_sound found
  · intro written
    have ran : Reader.start.run v.lexemes = some ⟨[],.full v⟩ := Reader.run_lexemes v []
    rw [Value.ofText?,lexemes_complete written (Reader.run_apart ran),Option.bind_some,ran]
    rfl

end ContextScan.Json
