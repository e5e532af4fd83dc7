import ContextScan.Proofs.StatementEnd

namespace ContextScan
open Text Trivia Recognizer TextCursor

universe u

def Lone (rest : List Char) : Prop := rest.head? = some '?' ∧ rest[1]? ≠ some '?' ∧ rest[1]? ≠ some '.'

section
variable {σ : Type u} [Cursor σ] [TextCursor σ]

theorem skipWhile_ahead (passes : Char → Bool) (s : σ) : ahead (skipWhile passes s) = (ahead s).dropWhile passes := by
  have text := (skipWhile_over passes s).text
  have whole := List.takeWhile_append_dropWhile (p := passes) (l := ahead s)
  exact List.append_cancel_left (text.symm.trans whole.symm)

-- There are three refusals: no question mark, a second one behind it, and a dot,
-- which is only seen once the end is staked.
theorem ternary_lone (s : σ) : let mark := skipWhile Character.isSpace s
    Lone (ahead mark) ∧ ternary s = .accepted (Cursor.markEnd (Cursor.advance mark)) ∨
      ¬Lone (ahead mark) ∧ (ternary s).isAccepted = false := by
  intro mark
  have next : Cursor.lookahead (Cursor.advance mark) = (ahead mark)[1]? := by
    simp [lookahead_eq,ahead_advance]
  have still : Cursor.lookahead (Cursor.markEnd (Cursor.advance mark)) = (ahead mark)[1]? := by
    simp [lookahead_eq,ahead_markEnd,ahead_advance]
  unfold ternary
  dsimp only
  rw [show skipWhile Character.isSpace s = mark from rfl,lookahead_eq mark,next,still]
  by_cases question : (ahead mark).head? = some '?'
  · by_cases doubled : (ahead mark)[1]? = some '?'
    · simp [Lone,question,doubled,Attempt.isAccepted]
    · by_cases chained : (ahead mark)[1]? = some '.'
      · simp [Lone,question,chained,Attempt.of,Attempt.isAccepted]
      · simp [Lone,question,doubled,chained,Attempt.of]
  · simp [Lone,question,Attempt.isAccepted]

theorem ternary_accepted (s : σ) : (ternary s).isAccepted = true ↔ Lone ((ahead s).dropWhile Character.isSpace) := by
  have outcome := ternary_lone s
  dsimp only at outcome
  rw [skipWhile_ahead] at outcome
  rcases outcome with ⟨lone,taken⟩ | ⟨unlone,refused⟩
  · simp [lone,taken,Attempt.isAccepted]
  · simp [unlone,refused]

end

namespace Source

variable {before after gap next : List Char} {s : Source}

theorem ternary_marks {text : List Char} (ready : Ready text s) (taken : (ternary s).isAccepted = true) :
    let blank := s.place.ahead.takeWhile Character.isSpace
    (ternary s).cursor.tokenStart = s.place.offset + width blank ∧
      (ternary s).cursor.tokenEnd = some (s.place.offset + width blank + 1) ∧
      (ternary s).cursor.place.offset = s.place.offset + width blank + 1 := by
  intro blank
  have skips : SkipsOver blank s (skipWhile Character.isSpace s) := skipWhile_over Character.isSpace s
  have here := skips.source.1
  have start := (skips_start ready.contentless ready.tokenStart ⟨_,skips.calls⟩).2.1
  have outcome := ternary_lone s
  dsimp only at outcome
  generalize skipWhile Character.isSpace s = mark at here start outcome
  rcases outcome with ⟨lone,accepted⟩ | ⟨_,refused⟩
  · have past : mark.place.next.offset = s.place.offset + width blank + 1 := by
      obtain ⟨⟨behind,front,offset⟩,_,_,_,_⟩ := mark
      obtain ⟨rest,same⟩ := List.head?_eq_some_iff.mp lone.1
      change front = '?' :: rest at same
      subst same
      exact congrArg (· + 1) here
    rw [accepted]
    exact ⟨start.trans here,congrArg some past,past⟩
  · rw [refused] at taken
    cases taken

theorem ternary_token (small : width (before ++ after) < UInt32.size) (ready : Ready (before ++ after) s)
    (here : s.place.ahead = after) (offset : s.place.offset = width before) (taken : (ternary s).isAccepted = true) :
    let begin := width before + width (after.takeWhile Character.isSpace)
    (ternary s).cursor.tokenSpan = .ok (some ⟨UInt32.ofNat begin,1⟩) ∧
      (ternary s).cursor.tokenText = .ok (some ['?']) ∧ (ternary s).cursor.pos.toNat = begin + 1 := by
  have lone : Lone (after.dropWhile Character.isSpace) := by
    rw [← here]
    exact (ternary_accepted s).mp taken
  have kept : Valid (before ++ after) (ternary s).cursor := attempt_valid ready.valid .ternary
  obtain ⟨start,marked,past⟩ := ternary_marks ready taken
  rw [here,offset,← width_append] at start marked past
  obtain ⟨rest,front⟩ := List.head?_eq_some_iff.mp lone.1
  have parts : before ++ after = before ++ after.takeWhile Character.isSpace ++ ['?'] ++ rest := by
    simp only [List.append_assoc,List.singleton_append]
    rw [← front,List.takeWhile_append_dropWhile]
  obtain ⟨span,characters⟩ := marked_from kept small parts start marked
  dsimp only
  rw [← width_append,kept.pos small]
  refine ⟨?_,characters,past⟩
  rw [span,Span.ofOffsets,Nat.add_sub_cancel_left]
  rfl

-- Past white space of any kind, a lone question mark is the whole token.
theorem scan_conditional (before after : List Char) (regions : List Region) (small : width (before ++ after) < UInt32.size) :
    let s := (startAt (before ++ after) (UInt32.ofNat (width before))).withRegions regions
    let blank := after.takeWhile Character.isSpace
    let rest := after.dropWhile Character.isSpace
    let found := scan (.single .ternary) s
    (found.token = some .ternary ↔ rest.head? = some '?' ∧ rest[1]? ≠ some '?' ∧ rest[1]? ≠ some '.') ∧
    (found.token = some .ternary →
      found.cursor.tokenSpan = .ok (some ⟨UInt32.ofNat (width before + width blank),1⟩) ∧
      found.cursor.tokenText = .ok (some ['?']) ∧
      found.cursor.pos.toNat = width before + width blank + 1) ∧
    (found.token ≠ some .ternary → found.token = none ∧ found.cursor = s) := by
  intro s blank rest found
  obtain ⟨ready,here,offset⟩ := startAt_here before after regions small
  have accepted : (ternary s).isAccepted = true ↔ Lone rest := by
    rw [ternary_accepted,show ahead s = after from here]
  obtain ⟨token,cursor⟩ := Dispatch.alone_outcome .ternary s
  change found.token = if (ternary s).isAccepted then _ else _ at token
  change found.cursor = if (ternary s).isAccepted then (ternary s).cursor else s at cursor
  have taken : found.token = some .ternary ↔ (ternary s).isAccepted = true := Dispatch.alone_taken .ternary s
  refine ⟨taken.trans accepted,?_,?_⟩
  · intro asked
    rw [if_pos (taken.mp asked)] at cursor
    rw [cursor]
    exact ternary_token small ready here offset (taken.mp asked)
  · intro missed
    have refused : ¬(ternary s).isAccepted = true := fun accepted => missed (taken.mpr accepted)
    rw [if_neg refused] at token cursor
    exact ⟨token,cursor⟩

theorem scan_conditional_broken :
    let s := (startAt ['x','\n','\u00a0','?','a'] 1).withRegions []
    width ['x','\n','\u00a0','?','a'] < UInt32.size ∧ (scan ⟨4⟩ s).token = some .ternary ∧
      (scan ⟨4⟩ s).cursor.tokenSpan = .ok (some ⟨4,1⟩) ∧ (scan ⟨4⟩ s).cursor.tokenText = .ok (some ['?']) ∧
      (scan ⟨4⟩ s).cursor.pos.toNat = 5 := by
  intro s
  have small : width (['x'] ++ ['\n','\u00a0','?','a']) < UInt32.size := by decide
  obtain ⟨lone,taken,_⟩ := scan_conditional ['x'] ['\n','\u00a0','?','a'] [] small
  have found : (scan ⟨4⟩ s).token = some .ternary := lone.mpr (by decide)
  exact ⟨small,found,taken found⟩

-- What a statement begins with is no question mark, and a comment is not passed on
-- the way to one.
theorem items_questionless (items : Items gap next) (begins : Begins next) :
    ((gap ++ next).dropWhile Character.isSpace).head? ≠ some '?' := by
  have slash : ¬Character.isSpace '/' = true := by decide
  induction items with
  | @nil rest =>
      cases rest with
      | nil => simp
      | cons c rest =>
          simp only [Begins,List.head?_cons,Option.all_some,Bool.and_eq_true,Bool.not_eq_true'] at begins
          rw [List.nil_append,List.dropWhile_cons_of_neg (by simp [begins.1])]
          intro question
          cases question
          exact absurd begins.2 (by decide)
  | @cons item more rest piece _ ih =>
      cases piece with
      | space space =>
          rw [List.append_assoc,List.singleton_append,List.dropWhile_cons_of_pos space]
          exact ih begins
      | line => simp [List.dropWhile_cons_of_neg slash]
      | block => simp [List.dropWhile_cons_of_neg slash]

theorem beyond_spaces (s : Source) :
    s.place.ahead.dropWhile Character.isSpace = s.beyond.dropWhile Character.isSpace := by
  have inline : ∀ c ∈ s.line, Character.isSpace c = true := by
    intro c member
    have blank : Character.isInline c = true := List.all_eq_true.mp List.all_takeWhile c member
    simp only [Character.isInline,Bool.and_eq_true] at blank
    exact blank.1
  have parts : s.line ++ s.beyond = s.place.ahead := List.takeWhile_append_dropWhile
  rw [← parts,List.dropWhile_append_of_pos inline]

theorem Permits.questionless (permits : Permits s) (regionless : ∀ passed, ¬RegionBefore s passed) :
    (s.place.ahead.dropWhile Character.isSpace).head? ≠ some '?' := by
  rw [beyond_spaces]
  rcases permits with ⟨passed,region⟩ | closed | ⟨gap,next,breaks⟩
  · exact absurd region (regionless passed)
  · cases left : s.beyond with
    | nil => simp
    | cons c rest =>
        have brace : c = '}' := by simpa [left] using closed
        subst brace
        simp [List.dropWhile_cons_of_neg (show ¬Character.isSpace '}' = true by decide)]
  · rw [breaks.parts,List.dropWhile_cons_of_pos Character.lineFeed_space]
    exact items_questionless breaks.items breaks.begins

theorem semicolon_or_ternary (regionless : ∀ passed, ¬RegionBefore s passed) :
    ¬((semicolon s).isAccepted = true ∧ (ternary s).isAccepted = true) := by
  intro both
  have permits : Permits s := (semicolon_concludes s).permits.mp both.1
  have lone := (ternary_accepted s).mp both.2
  exact permits.questionless regionless lone.1

end Source

namespace Dispatch
open Scan

variable {σ : Type u} [Cursor σ] {valid : TokenSet} {s : σ}

-- The refusal that ends the chain is only one where no conditional is admissible,
-- and then the two places are not both in it.
theorem dispatch_exchange (rest : List Token)
    (apart : ¬((attempt .semicolon s).isAccepted = true ∧ (attempt .ternary s).isAccepted = true)) :
    dispatch valid s (.ternary :: .semicolon :: rest) = dispatch valid s (.semicolon :: .ternary :: rest) := by
  cases conditional : valid.allows .ternary with
  | false => simp [dispatch_cons,conditional,suppresses]
  | true =>
      cases ended : (attempt .semicolon s).isAccepted with
      | false => simp [dispatch_cons,conditional,ended,suppresses]
      | true =>
          have unasked : (attempt .ternary s).isAccepted = false := by simpa [ended] using apart
          simp [dispatch_cons,conditional,ended,unasked,suppresses]

theorem order_exchange
    (apart : ¬((attempt .semicolon s).isAccepted = true ∧ (attempt .ternary s).isAccepted = true)) :
    dispatch valid s [.template,.ternary,.semicolon,.markup] = dispatch valid s order := by
  rw [order,dispatch_cons,dispatch_cons valid .template,dispatch_exchange [.markup] apart]

end Dispatch

namespace Source

variable {s : Source}

-- A terminator and a conditional are not both found, so either may be tried first.
structure Uncontested (s : Source) : Prop where
  apart : ¬((scan (.single .semicolon) s).token = some .semicolon ∧ (scan (.single .ternary) s).token = some .ternary)
  exchange : ∀ valid : TokenSet,
    let exchanged := Scan.dispatch valid s [.template,.ternary,.semicolon,.markup]
    exchanged.token = (scan valid s).token ∧ exchanged.cursor = (scan valid s).cursor ∧
      exchanged.cursor.tokenSpan = (scan valid s).cursor.tokenSpan

theorem uncontested (regionless : ∀ passed, ¬RegionBefore s passed) : Uncontested s := by
  have apart := semicolon_or_ternary regionless
  refine ⟨?_,?_⟩
  · intro both
    apply apart
    exact ⟨(Dispatch.alone_taken _ s).mp both.1,(Dispatch.alone_taken _ s).mp both.2⟩
  · intro valid exchanged
    have same : exchanged = Scan.dispatch valid s Scan.order := Dispatch.order_exchange apart
    rw [same]
    exact ⟨rfl,rfl,rfl⟩

-- A region that starts on the rest of the line lets both be found; without regions the
-- length of the text is of no account.
theorem semicolon_ternary_apart :
    (∀ (text : List Char) (offset : UInt32) (regions : List Region), width text < UInt32.size →
      let s := (startAt text offset).withRegions regions
      (∀ passed, passed <+: s.place.ahead.takeWhile Character.isInline →
        ¬RegionAt regions (s.place.offset + width passed)) → Uncontested s) ∧
    ∀ s : Source, s.regions = [] → Uncontested s := by
  refine ⟨?_,?_⟩
  · intro text offset regions small s regionless
    have valid : Valid text s := withRegions_valid (startAt_valid text offset) regions
    apply uncontested
    intro passed region
    obtain ⟨short,starts⟩ := (regionBefore_exact valid small).mp region
    exact regionless passed short starts
  · intro s regionless
    apply uncontested
    intro passed region
    obtain ⟨_,started,member,_⟩ := region
    rw [regionless] at member
    cases member

theorem semicolon_ternary_apart_below :
    let s := (startAt ['x',' ','\n','?','a'] 1).withRegions [⟨0,1⟩]
    width ['x',' ','\n','?','a'] < UInt32.size ∧
    (∀ passed, passed <+: s.place.ahead.takeWhile Character.isInline →
      ¬RegionAt [⟨0,1⟩] (s.place.offset + width passed)) ∧
    (scan (.single .semicolon) s).token ≠ some .semicolon ∧ (scan (.single .ternary) s).token = some .ternary ∧
    (Scan.dispatch ⟨5⟩ s [.template,.ternary,.semicolon,.markup]).token = (scan ⟨5⟩ s).token ∧
    Uncontested (s.withRegions []) := by
  intro s
  have small : width ['x',' ','\n','?','a'] < UInt32.size := by decide
  have regionless : ∀ passed, passed <+: s.place.ahead.takeWhile Character.isInline →
      ¬RegionAt [⟨0,1⟩] (s.place.offset + width passed) := by
    intro passed _
    exact regionless_past (by decide) (Nat.le_add_right s.place.offset _)
  obtain ⟨fresh,every⟩ := semicolon_ternary_apart
  obtain ⟨apart,exchange⟩ := fresh ['x',' ','\n','?','a'] 1 [⟨0,1⟩] small regionless
  have asked : (scan (.single .ternary) s).token = some .ternary := by decide +kernel
  exact ⟨small,regionless,fun ended => apart ⟨ended,asked⟩,asked,(exchange ⟨5⟩).1,every _ rfl⟩

theorem semicolon_ternary_wrapped :
    let s := (startAt (List.replicate 4294967295 'x' ++ [' ','?','a']) 4294967295).withRegions [⟨0,1⟩]
    (∀ offset, s.place.offset ≤ offset → ¬RegionAt [⟨0,1⟩] offset) ∧
    (scan (.single .semicolon) s).token = some .semicolon ∧ (scan (.single .ternary) s).token = some .ternary := by
  intro s
  obtain ⟨behind,there⟩ : ∃ behind, s = (fresh ⟨behind,[' ','?','a'],4294967295⟩).withRegions [⟨0,1⟩] :=
    ⟨_,by rw [← startAt_brink]⟩
  clear_value s
  subst there
  refine ⟨?_,(Dispatch.alone_taken _ _).mpr ?_,(Dispatch.alone_taken _ _).mpr ?_⟩
  · intro offset late
    change 4294967295 ≤ offset at late
    exact regionless_past (by decide) late
  · have wrapped : 0 = UInt32.ofNat (4294967295 + width [' ']) := by decide
    exact (semicolon_concludes _).permits.mpr (.inl ⟨[' '],List.prefix_refl _,⟨0,1⟩,List.mem_singleton_self _,wrapped⟩)
  · have lone : Lone ['?','a'] := ⟨rfl,by decide,by decide⟩
    exact (ternary_accepted _).mpr lone

end Source
end ContextScan
