import ContextScan.Proofs.StatementEnd

namespace ContextScan.Dispatch
open Recognizer Scan

universe u
variable {σ : Type u} [Cursor σ] {valid : TokenSet} {s : σ}

-- What is left to decide once no template text is taken and no conditional may be.
structure Undecided (valid : TokenSet) (s : σ) : Prop where
  literal : ¬(valid.allows .template = true ∧ (attempt .template s).isAccepted = true)
  admitted : valid.allows .semicolon = true
  conditionless : valid.allows .ternary = false

theorem suppressed_event (valid : TokenSet) (s : σ) :
    Event.suppressed ∈ (scan valid s).events ↔ suppressed valid s = true := by
  rw [scan_events]
  cases suppressed valid s <;> simp

theorem Undecided.suppressed_stop (undecided : Undecided valid s) : suppressed valid s = true ↔
    (attempt .semicolon s).isAccepted = false ∧ Cursor.lookahead (attempt .semicolon s).cursor = some '?' := by
  rw [suppressed_exact]
  simp [suppresses,undecided.literal,undecided.admitted,undecided.conditionless]

theorem suppressed_trials (early : suppressed valid s = true) : ∀ trial ∈ trials valid s order, trial.1 ≠ .markup := by
  obtain ⟨literal,admitted,declined,question⟩ := (suppressed_exact valid s).mp early
  intro trial tried
  have ends : trials valid s [.semicolon,.ternary,.markup] = [(.semicolon,attempt .semicolon s)] := by
    rw [trials,if_pos admitted,if_pos (.inr question)]
  rw [order,trials,ends] at tried
  split at tried
  · rename_i allowed
    rw [if_neg] at tried
    · simp only [List.mem_cons,List.not_mem_nil,or_false] at tried
      rcases tried with rfl | rfl
      · simp
      · simp
    · rintro (taken | stops)
      · exact literal ⟨allowed,taken⟩
      · cases suppresses_semicolon stops
  · rw [List.mem_singleton.mp tried]
    simp

theorem suppressed_answer (early : suppressed valid s = true) :
    (scan valid s).token = none ∧ (scan valid s).cursor = s := by
  have missed : (scan valid s).token = none := by
    rw [scan_token,early,if_pos rfl]
  exact ⟨missed,scan_leaves valid s missed⟩

theorem Undecided.onward (undecided : Undecided valid s) (declined : (attempt .semicolon s).isAccepted = false)
    (late : suppressed valid s = false) :
    (scan valid s).token = (if valid.allows .markup = true then (alone .markup s).token else none) ∧
    (scan valid s).cursor = (if valid.allows .markup = true then (alone .markup s).cursor else s) := by
  have goes : ¬(valid.allows .semicolon = true ∧ suppresses valid .semicolon (attempt .semicolon s).cursor = true) := by
    rintro ⟨admitted,question⟩
    rw [(suppressed_exact valid s).mpr ⟨undecided.literal,admitted,declined,question⟩] at late
    cases late
  have passed : dispatch valid s order = dispatch valid s [.markup] := by
    rw [order,dispatch_cons,if_neg undecided.literal,if_neg (by simp [suppresses]),dispatch_cons,
      if_neg (by simp [declined]),if_neg goes,dispatch_refused undecided.conditionless]
  obtain ⟨token,cursor⟩ := alone_outcome .markup s
  change (dispatch valid s order).token = _ ∧ (dispatch valid s order).cursor = _
  rw [passed,dispatch_cons,token,cursor]
  cases valid.allows .markup <;> cases (attempt .markup s).isAccepted <;> simp [suppresses,dispatch]

end ContextScan.Dispatch

namespace ContextScan.Source
open Text Trivia Recognizer TextCursor

def Blocks (s : Source) (rest : List Char) : Prop := (∀ passed, ¬RegionBefore s passed) ∧ s.beyond = rest

def BlocksBelow (s : Source) (rest : List Char) : Prop :=
  (∀ passed, ¬RegionBefore s passed) ∧ ∃ gap, s.beyond = '\n' :: (gap ++ rest) ∧ Items gap rest

def Questions (s : Source) : Prop :=
  (∃ rest, Blocks s ('?' :: rest)) ∨ ∃ rest, BlocksBelow s ('?' :: rest)

-- A slash refuses it that opens no comment. The trial has passed the slash when it
-- stops, and what it stops at is a question mark.
def QuestionsPast (s : Source) : Prop := ∃ rest, BlocksBelow s ('/' :: '?' :: rest)

section
variable {s front far stopped : Source} {line gap rest : List Char}

theorem OnLine.regionless_all (on : OnLine s line front) (regionless : ¬RegionSeen s.regions front.place.offset)
    (solid : (Cursor.lookahead front).any Character.isInline = false) (passed : List Char) : ¬RegionBefore s passed :=
  fun region => regionless (region.early on solid).2

theorem settled_question : Settled ('?' :: rest) := settled_solid rfl (by simp)

theorem settled_slash_question : Settled ('/' :: '?' :: rest) :=
  LoneSlash.settled ⟨'?' :: rest,rfl,by simp,by simp⟩

theorem OnLine.blocks_exact (on : OnLine s line front) (regionless : ¬RegionSeen s.regions front.place.offset)
    (solid : (Cursor.lookahead front).any Character.isInline = false) : Blocks s rest ↔ rest = ahead front := by
  rw [Blocks,(on.whole solid).2]
  exact ⟨fun blocks => blocks.2.symm,fun same => ⟨on.regionless_all regionless solid,same.symm⟩⟩

theorem BlocksBelow.unique {other : List Char} (left : BlocksBelow s rest) (right : BlocksBelow s other)
    (leftSettled : Settled rest) (rightSettled : Settled other) : rest = other := by
  obtain ⟨_,_,here,items⟩ := left
  obtain ⟨_,_,same,items'⟩ := right
  rw [here,List.cons.injEq] at same
  exact (items_unique items items' leftSettled rightSettled same.2).2

theorem BlocksBelow.feed (blocks : BlocksBelow s rest) : s.beyond.head? = some '\n' := by
  obtain ⟨_,_,here,_⟩ := blocks
  rw [here,List.head?_cons]

theorem OnLine.below (on : OnLine s line front) (regionless : ¬RegionSeen s.regions front.place.offset)
    (feed : Cursor.lookahead front = some '\n') (skips : SkipsOver gap (Cursor.skip front) far)
    (items : Items gap (ahead far)) : BlocksBelow s (ahead far) := by
  refine ⟨on.regionless_all regionless (feed_outline feed),gap,?_,items⟩
  rw [(on.whole (feed_outline feed)).2]
  exact (SkipsOver.skip feed skips).text

theorem questions_regionless (questions : Questions s ∨ QuestionsPast s) (passed : List Char) : ¬RegionBefore s passed := by
  rcases questions with (⟨_,blocks⟩ | ⟨_,blocks⟩) | ⟨_,blocks⟩
  · exact blocks.1 passed
  · exact blocks.1 passed
  · exact blocks.1 passed

theorem questions_head (questions : Questions s ∨ QuestionsPast s) :
    s.beyond.head? = some '?' ∨ s.beyond.head? = some '\n' := by
  rcases questions with (⟨_,_,same⟩ | ⟨_,blocks⟩) | ⟨_,blocks⟩
  · exact .inl (by rw [same,List.head?_cons])
  · exact .inr blocks.feed
  · exact .inr blocks.feed

theorem OnLine.questions_line {c : Char} (on : OnLine s line front) (regionless : ¬RegionSeen s.regions front.place.offset)
    (found : Cursor.lookahead front = some c) (solid : Character.isSpace c = false) :
    Questions s ∨ QuestionsPast s ↔ c = '?' := by
  have outline := solid_outline found (Character.isInline_solid solid)
  have beyond : s.beyond.head? = some c := by rw [(on.whole outline).2,← lookahead_eq,found]
  constructor
  · intro questions
    rcases questions_head questions with question | feed
    · exact Option.some.inj (beyond.symm.trans question)
    · cases beyond.symm.trans feed
      cases solid
  · rintro rfl
    obtain ⟨rest,here,_,_⟩ := ahead_cons found
    exact .inl (.inl ⟨rest,(on.blocks_exact regionless outline).mpr here.symm⟩)

theorem BlocksBelow.questions (blocks : BlocksBelow s rest) (settled : Settled rest) :
    Questions s ∨ QuestionsPast s ↔ ∃ behind, rest = '?' :: behind ∨ rest = '/' :: '?' :: behind := by
  constructor
  · rintro ((⟨behind,_,same⟩ | ⟨behind,below⟩) | ⟨behind,below⟩)
    · have feed := blocks.feed
      rw [same] at feed
      cases feed
    · exact ⟨behind,.inl (blocks.unique below settled settled_question)⟩
    · exact ⟨behind,.inr (blocks.unique below settled settled_slash_question)⟩
  · rintro ⟨behind,rfl | rfl⟩
    · exact .inl (.inr ⟨behind,blocks⟩)
    · exact .inr ⟨behind,blocks⟩

theorem Holds.question (holds : Holds far stopped) : Cursor.lookahead stopped = some '?' ↔
    ∃ behind, ahead far = '?' :: behind ∨ ahead far = '/' :: '?' :: behind := by
  cases holds with
  | @continued c found _ other =>
      obtain ⟨rest,here,_,_⟩ := ahead_cons found
      rw [found,here]
      constructor
      · rintro same
        cases same
        exact ⟨rest,.inl rfl⟩
      · rintro ⟨behind,question | slash⟩
        · cases question
          rfl
        · cases slash
          exact absurd rfl other
  | lone lone =>
      obtain ⟨rest,here,_,_⟩ := lone
      rw [lookahead_eq,ahead_skip,here,List.tail_cons]
      constructor
      · intro question
        obtain ⟨behind,rfl⟩ := List.head?_eq_some_iff.mp question
        exact ⟨behind,.inr rfl⟩
      · rintro ⟨behind,question | slash⟩
        · cases question
        · cases slash
          rfl
  | unclosed unclosed skips =>
      have ended : ahead stopped = [] := List.self_eq_append_right.mp skips.text
      obtain ⟨rest,here,_⟩ := unclosed
      rw [lookahead_eq,ended,here]
      constructor
      · intro question
        cases question
      · rintro ⟨behind,question | slash⟩
        · cases question
        · cases slash

theorem Begins.questionless (begins : Begins rest) : ¬∃ behind, rest = '?' :: behind ∨ rest = '/' :: '?' :: behind := by
  have question : Character.continuesStatement '?' = true := by decide
  have slash : Character.continuesStatement '/' = true := by decide
  rintro ⟨behind,rfl | rfl⟩
  · simp [Begins,question] at begins
  · simp [Begins,slash] at begins

theorem Concludes.questions {outcome : Attempt Source} (concludes : Concludes s outcome) :
    outcome.isAccepted = false ∧ Cursor.lookahead outcome.cursor = some '?' ↔ Questions s ∨ QuestionsPast s := by
  cases concludes with
  | @region line front on region =>
      rw [on.here] at region
      simp only [Attempt.isAccepted,Bool.true_eq_false,false_and,false_iff]
      exact fun questions => questions_regionless questions line ⟨on.within,region⟩
  | closed on closed =>
      simp only [Attempt.isAccepted,Bool.true_eq_false,false_and,false_iff]
      intro questions
      rw [lookahead_eq,← (on.whole (closed_outline closed)).2] at closed
      rcases questions_head questions with question | feed
      · simp [question] at closed
      · simp [feed] at closed
  | blocked on regionless found _ solid =>
      rw [on.questions_line regionless found solid]
      simp [Attempt.isAccepted,Attempt.cursor,found]
  | ended on regionless feed skips items begins =>
      rw [(on.below regionless feed skips items).questions begins.settled]
      simp only [Attempt.isAccepted,Bool.true_eq_false,false_and,false_iff]
      exact begins.questionless
  | held on regionless feed skips items settled holds =>
      rw [(on.below regionless feed skips items).questions settled,← holds.question]
      simp [Attempt.isAccepted,Attempt.cursor]

theorem Blocks.refused {c : Char} (blocks : Blocks s (c :: rest)) (other : c ≠ '}') (lineless : c ≠ '\n') : ¬Permits s := by
  obtain ⟨regionless,here⟩ := blocks
  rintro (⟨passed,region⟩ | closed | ⟨gap,next,breaks⟩)
  · exact regionless passed region
  · rw [here] at closed
    exact other (by simpa using closed)
  · have parts := breaks.parts
    rw [here] at parts
    cases parts
    exact lineless rfl

theorem BlocksBelow.refused (blocks : BlocksBelow s rest) (settled : Settled rest) (slash : rest.head? = some '/') :
    ¬Permits s := by
  rintro (⟨passed,region⟩ | closed | ⟨gap,next,breaks⟩)
  · exact blocks.1 passed region
  · rw [blocks.feed] at closed
    cases closed
  · have below : BlocksBelow s next := ⟨blocks.1,gap,breaks.parts,breaks.items⟩
    have begins := breaks.begins
    rw [← blocks.unique below settled breaks.begins.settled,Begins,slash] at begins
    cases begins

end

-- A terminator refused for a question mark ends the chain, and so does one refused
-- for a slash in front of a question mark. Any other refusal leaves the call to
-- markup text.
theorem suppression_exact (valid : TokenSet) (s : Source) (undecided : Dispatch.Undecided valid s) :
    (Event.suppressed ∈ (scan valid s).events ↔ Questions s ∨ QuestionsPast s) ∧
    (Event.suppressed ∈ (scan valid s).events → (scan valid s).token = none ∧ (scan valid s).cursor = s ∧
      ∀ trial ∈ Dispatch.trials valid s Scan.order, trial.1 ≠ .markup) ∧
    ((semicolon s).isAccepted = false → Event.suppressed ∉ (scan valid s).events →
      (scan valid s).token = (if valid.allows .markup = true then (scan (.single .markup) s).token else none) ∧
      (scan valid s).cursor = (if valid.allows .markup = true then (scan (.single .markup) s).cursor else s)) ∧
    (∀ rest, Blocks s ('/' :: rest) → (semicolon s).isAccepted = false ∧ Event.suppressed ∉ (scan valid s).events) ∧
    (∀ rest, BlocksBelow s rest → (LoneSlash rest ∧ rest.tail.head? ≠ some '?') ∨ Unclosed rest →
      (semicolon s).isAccepted = false ∧ Event.suppressed ∉ (scan valid s).events) := by
  have concludes := semicolon_concludes s
  have asks : Event.suppressed ∈ (scan valid s).events ↔ Questions s ∨ QuestionsPast s := by
    rw [Dispatch.suppressed_event,undecided.suppressed_stop]
    exact concludes.questions
  have declined : ¬Permits s → (semicolon s).isAccepted = false := by
    intro refused
    rw [Bool.eq_false_iff]
    exact fun taken => refused (concludes.permits.mp taken)
  refine ⟨asks,?_,?_,?_,?_⟩
  · intro event
    have early := (Dispatch.suppressed_event valid s).mp event
    obtain ⟨token,cursor⟩ := Dispatch.suppressed_answer early
    exact ⟨token,cursor,Dispatch.suppressed_trials early⟩
  · intro refused eventless
    rw [Dispatch.suppressed_event,Bool.not_eq_true] at eventless
    exact undecided.onward refused eventless
  · intro rest blocks
    refine ⟨declined (blocks.refused (by decide) (by decide)),?_⟩
    intro event
    rcases questions_head (asks.mp event) with question | feed
    · rw [blocks.2] at question
      cases question
    · rw [blocks.2] at feed
      cases feed
  · intro rest blocks kept
    have settled : Settled rest := kept.elim (fun lone => lone.1.settled) Unclosed.settled
    have slash : rest.head? = some '/' := kept.elim (fun lone => lone.1.slash) Unclosed.slash
    refine ⟨declined (blocks.refused settled slash),?_⟩
    intro event
    obtain ⟨behind,rfl | rfl⟩ := (blocks.questions settled).mp (asks.mp event)
    · cases slash
    · rcases kept with ⟨_,other⟩ | ⟨_,same,_⟩
      · exact other rfl
      · cases same

theorem suppression_exact_commented :
    let s := startAt ['\n','/','*','?','*','/','?'] 0
    Dispatch.Undecided ⟨9⟩ s ∧ Event.suppressed ∈ (scan ⟨9⟩ s).events ∧
      (scan ⟨9⟩ s).token = none ∧ (scan ⟨9⟩ s).cursor = s := by
  intro s
  have undecided : Dispatch.Undecided ⟨9⟩ s := ⟨by decide,by decide,by decide⟩
  have comment : Item ['/','*','?','*','/'] ['?'] := @Item.block ['?'] _ (by simp [closer_cons])
  have items : Items (['/','*','?','*','/'] ++ []) ['?'] := .cons comment .nil
  have regionless : ∀ passed, ¬RegionBefore s passed := by
    rintro passed ⟨_,region,member,_⟩
    cases member
  obtain ⟨asks,leaves,_⟩ := suppression_exact ⟨9⟩ s undecided
  have event := asks.mpr (.inl (.inr ⟨[],regionless,_,rfl,items⟩))
  obtain ⟨token,cursor,_⟩ := leaves event
  exact ⟨undecided,event,token,cursor⟩

-- What refuses the terminator here is the slash, and the chain ends all the same.
theorem suppression_past_slash :
    ¬∀ (valid : TokenSet) (s : Source), Dispatch.Undecided valid s →
      (Event.suppressed ∈ (scan valid s).events ↔ Questions s) := by
  intro asks
  have undecided : Dispatch.Undecided ⟨9⟩ (startAt ['\n','/','?','a'] 0) := ⟨by decide,by decide,by decide⟩
  have event : Event.suppressed ∈ (scan ⟨9⟩ (startAt ['\n','/','?','a'] 0)).events := by decide +kernel
  have lone : LoneSlash ['/','?','a'] := ⟨['?','a'],rfl,by decide,by decide⟩
  rcases (asks _ _ undecided).mp event with ⟨rest,_,same⟩ | ⟨rest,blocks⟩
  · cases same
  · have slash : BlocksBelow (startAt ['\n','/','?','a'] 0) ['/','?','a'] := ⟨blocks.1,[],rfl,.nil⟩
    cases blocks.unique slash settled_question lone.settled

end ContextScan.Source
