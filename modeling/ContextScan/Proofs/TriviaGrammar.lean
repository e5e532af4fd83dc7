import ContextScan.Proofs.Primitives

namespace ContextScan.Trivia

-- One piece of trivia and what follows it. A line comment reaches the next line
-- feed, which is not in it, or the end of input. A block comment has one star and
-- slash in a row behind its opening, and they are its last characters.
inductive Item : List Char → List Char → Prop where
  | space : Character.isSpace c = true → Item [c] rest
  | line : '\n' ∉ body → rest.head?.all (· == '\n') = true → Item ('/' :: '/' :: body) rest
  | block : ¬['*','/'] <:+: body ++ ['*'] → Item ('/' :: '*' :: (body ++ ['*','/'])) rest

inductive Items : List Char → List Char → Prop where
  | nil : Items [] rest
  | cons : Item item (more ++ rest) → Items more rest → Items (item ++ more) rest

def Settled (text : List Char) : Prop := ∀ item rest, text = item ++ rest → ¬Item item rest

def LoneSlash (text : List Char) : Prop :=
  ∃ rest, text = '/' :: rest ∧ rest.head? ≠ some '/' ∧ rest.head? ≠ some '*'

def Unclosed (text : List Char) : Prop := ∃ rest, text = '/' :: '*' :: rest ∧ ¬['*','/'] <:+: rest

theorem LoneSlash.slash {text : List Char} (lone : LoneSlash text) : text.head? = some '/' := by
  obtain ⟨rest,rfl,_,_⟩ := lone
  rfl

theorem Unclosed.slash {text : List Char} (unclosed : Unclosed text) : text.head? = some '/' := by
  obtain ⟨rest,rfl,_⟩ := unclosed
  rfl

theorem Unclosed.not_lone {text : List Char} (unclosed : Unclosed text) : ¬LoneSlash text := by
  rintro ⟨rest,same,_,blockless⟩
  obtain ⟨behind,rfl,_⟩ := unclosed
  cases same
  exact blockless rfl

theorem settled_solid {text : List Char} (spaceless : text.head?.any Character.isSpace = false)
    (slashless : text.head? ≠ some '/') : Settled text := by
  rintro item rest rfl piece
  cases piece with
  | space space => simp [space] at spaceless
  | line => exact slashless rfl
  | block => exact slashless rfl

theorem LoneSlash.settled {text : List Char} (lone : LoneSlash text) : Settled text := by
  intro item rest same piece
  obtain ⟨behind,here,lineless,blockless⟩ := lone
  rw [here] at same
  cases piece with
  | space space => cases same; exact absurd space (by decide)
  | line => cases same; exact lineless rfl
  | block => cases same; exact blockless rfl

theorem Unclosed.settled {text : List Char} (unclosed : Unclosed text) : Settled text := by
  intro item rest same piece
  obtain ⟨behind,here,never⟩ := unclosed
  rw [here] at same
  cases piece with
  | space space => cases same; exact absurd space (by decide)
  | line => cases same
  | @block body => cases same; exact never ⟨body,rest,by simp⟩

theorem closer_cons {c : Char} {cs : List Char} :
    ['*','/'] <:+: c :: cs ↔ (c = '*' ∧ cs.head? = some '/') ∨ ['*','/'] <:+: cs := by
  rw [List.infix_cons_iff]
  apply or_congr_left
  cases cs <;> simp [List.cons_prefix_cons,eq_comm]

section
variable {a b x y body more : List Char}

-- No line comment ends short of another that begins where it does.
theorem line_whole (feedless : '\n' ∉ body ++ more) (stopped : (more ++ x).head?.all (· == '\n') = true) :
    more = [] := by
  cases more with
  | nil => rfl
  | cons c more =>
      have feed : c = '\n' := by simpa using stopped
      subst feed
      exact absurd (List.mem_append_right body List.mem_cons_self) feedless

theorem line_unique (left : '\n' ∉ a) (right : '\n' ∉ b) (leftStop : x.head?.all (· == '\n') = true)
    (rightStop : y.head?.all (· == '\n') = true) (same : a ++ x = b ++ y) : a = b ∧ x = y := by
  rcases List.append_eq_append_iff.mp same with ⟨more,rfl,rfl⟩ | ⟨more,rfl,rfl⟩
  · cases line_whole right leftStop
    simp
  · cases line_whole left rightStop
    simp

-- Nor does a block comment, since the longer one would hold what closes the other.
theorem block_whole (first : ¬['*','/'] <:+: b ++ ['*']) (same : b ++ ['*','/'] = a ++ ['*','/'] ++ more) :
    more = [] := by
  rcases List.eq_nil_or_concat more with empty | ⟨front,last,rfl⟩
  · exact empty
  · have parts : (b ++ ['*']) ++ ['/'] = (a ++ ['*','/'] ++ front) ++ [last] := by simpa using same
    have inner := (List.append_inj' parts rfl).1
    exact absurd ⟨a,front,inner.symm⟩ first

theorem block_unique (left : ¬['*','/'] <:+: a ++ ['*']) (right : ¬['*','/'] <:+: b ++ ['*'])
    (same : a ++ ['*','/'] ++ x = b ++ ['*','/'] ++ y) : a = b ∧ x = y := by
  rcases List.append_eq_append_iff.mp same with ⟨more,longer,rfl⟩ | ⟨more,longer,rfl⟩
  · cases block_whole right longer
    simpa using longer.symm
  · cases block_whole left longer
    simpa using longer

theorem item_unique (left : Item a x) (right : Item b y) (same : a ++ x = b ++ y) : a = b ∧ x = y := by
  have solid : ¬Character.isSpace '/' = true := by decide
  cases left with
  | space space =>
      cases right with
      | space => simpa using same
      | line => cases same; exact absurd space solid
      | block => cases same; exact absurd space solid
  | line feedless stopped =>
      cases right with
      | space space => cases same; exact absurd space solid
      | line feedless' stopped' =>
          obtain ⟨rfl,rest⟩ := line_unique feedless feedless' stopped stopped' (by simpa using same)
          exact ⟨rfl,rest⟩
      | block => simp at same
  | block first =>
      cases right with
      | space space => cases same; exact absurd space solid
      | line => simp at same
      | block first' =>
          obtain ⟨rfl,rest⟩ := block_unique first first' (by simpa using same)
          exact ⟨rfl,rest⟩

-- Text has one longest reading as trivia.
theorem items_unique (left : Items a x) (right : Items b y) (leftSettled : Settled x) (rightSettled : Settled y)
    (same : a ++ x = b ++ y) : a = b ∧ x = y := by
  induction left generalizing b with
  | nil =>
      cases right with
      | nil => exact ⟨rfl,same⟩
      | cons piece _ => exact absurd piece (leftSettled _ _ (by simpa using same))
  | cons piece _ ih =>
      cases right with
      | nil => exact absurd piece (rightSettled _ _ (by simpa using same.symm))
      | cons piece' later =>
          obtain ⟨rfl,behind⟩ := item_unique piece piece' (by simpa using same)
          obtain ⟨rfl,level⟩ := ih later leftSettled behind
          exact ⟨rfl,level⟩

theorem Items.append (left : Items a (b ++ x)) (right : Items b x) : Items (a ++ b) x := by
  generalize behind : b ++ x = y at left
  induction left with
  | nil => exact right
  | @cons item rest more piece _ ih =>
      subst behind
      have later := ih rfl
      rw [← List.append_assoc] at piece
      rw [List.append_assoc]
      exact .cons piece later

theorem items_spaces (spaces : ∀ c ∈ a, Character.isSpace c = true) : Items a x := by
  induction a with
  | nil => exact .nil
  | cons c a ih =>
      have piece : Item [c] (a ++ x) := .space (spaces c List.mem_cons_self)
      exact .cons piece (ih (fun d member => spaces d (List.mem_cons_of_mem c member)))

end

end ContextScan.Trivia

namespace ContextScan
open TextCursor

universe u
variable {σ : Type u} [Cursor σ] [TextCursor σ] {s t m : σ} {text more : List Char} {c : Char}

-- Each character of the text was skipped, and nothing else was done.
structure SkipsOver (passed : List Char) (s t : σ) : Prop where
  text : ahead s = passed ++ ahead t
  calls : Calls s (List.replicate passed.length .skip) t

theorem SkipsOver.refl (s : σ) : SkipsOver [] s s := ⟨rfl,.nil⟩

theorem SkipsOver.skip (found : Cursor.lookahead s = some c) (rest : SkipsOver text (Cursor.skip s) t) :
    SkipsOver (c :: text) s t := by
  obtain ⟨left,here,_,after⟩ := ahead_cons found
  refine ⟨?_,.skip (by simp [found]) rest.calls⟩
  rw [here,← after,rest.text,List.cons_append]

theorem SkipsOver.trans (first : SkipsOver text s m) (second : SkipsOver more m t) :
    SkipsOver (text ++ more) s t := by
  refine ⟨by rw [first.text,second.text,List.append_assoc],?_⟩
  rw [List.length_append,← List.replicate_append_replicate]
  exact first.calls.append second.calls

namespace Trivia

theorem skipWhile_over (passes : Char → Bool) (s : σ) :
    SkipsOver ((ahead s).takeWhile passes) s (skipWhile passes s) := by
  have calls := skipWhile_calls passes s
  have left := calls.ahead_eq
  have parts := List.takeWhile_append_dropWhile (p := passes) (l := ahead s)
  have dropped : ((ahead s).takeWhile passes ++ (ahead s).dropWhile passes).drop ((ahead s).takeWhile passes).length =
      (ahead s).dropWhile passes := List.drop_left
  rw [parts] at dropped
  rw [passed_skips,dropped] at left
  exact ⟨by rw [left,parts],calls⟩

omit [TextCursor σ] in
theorem skipWhile_stopped (passes : Char → Bool) (s : σ) :
    (Cursor.lookahead (skipWhile passes s)).any passes = false := by
  fun_induction skipWhile passes s with
  | case1 s ended => simp [ended]
  | case2 s c found _ _ ih => exact ih
  | case3 s c found _ stays => simpa [found] using stays

theorem blockComment_closed {after : σ} (closed : blockComment s = .accepted after) :
    ∃ body, ¬['*','/'] <:+: body ++ ['*'] ∧ SkipsOver (body ++ ['*','/']) s after := by
  fun_induction blockComment s with
  | case1 => cases closed
  | case2 s c found _ closes =>
      obtain ⟨rfl,slash⟩ := closes
      cases closed
      exact ⟨[],by simp [closer_cons],.skip found (.skip slash (.refl _))⟩
  | case3 s c found _ opened ih =>
      obtain ⟨body,first,skips⟩ := ih closed
      refine ⟨c :: body,?_,skips.skip found⟩
      rw [List.cons_append,closer_cons]
      rintro (⟨star,slash⟩ | inner)
      · refine opened ⟨star,?_⟩
        rw [lookahead_eq,skips.text,← slash]
        cases body <;> rfl
      · exact first inner

theorem blockComment_open {stopped : σ} (refused : blockComment s = .declined stopped) :
    ¬['*','/'] <:+: ahead s ∧ SkipsOver (ahead s) s stopped := by
  fun_induction blockComment s with
  | case1 s ended =>
      cases refused
      rw [ahead_nil ended]
      exact ⟨by simp,.refl _⟩
  | case2 => cases refused
  | case3 s c found _ opened ih =>
      obtain ⟨unclosed,skips⟩ := ih refused
      obtain ⟨rest,here,_,after⟩ := ahead_cons found
      rw [after] at unclosed skips
      rw [here,closer_cons]
      refine ⟨?_,skips.skip found⟩
      rintro (⟨star,slash⟩ | inner)
      · exact opened ⟨star,by rw [lookahead_eq,after,slash]⟩
      · exact unclosed inner

theorem comment_item {after : σ} (slash : Cursor.lookahead s = some '/') (taken : comment s = .accepted after) :
    ∃ item, Item item (ahead after) ∧ SkipsOver item s after := by
  unfold comment at taken
  split at taken
  · rename_i second
    cases taken
    have skips := skipWhile_over (· != '\n') (Cursor.skip (Cursor.skip s))
    have stopped := skipWhile_stopped (· != '\n') (Cursor.skip (Cursor.skip s))
    refine ⟨_,.line ?_ ?_,.skip slash (.skip second skips)⟩
    · intro feed
      simpa using List.all_eq_true.mp List.all_takeWhile '\n' feed
    · rw [← lookahead_eq]
      cases found : Cursor.lookahead (skipWhile (· != '\n') (Cursor.skip (Cursor.skip s))) with
      | none => rfl
      | some d => simpa [found] using stopped
  · rename_i second
    obtain ⟨body,first,skips⟩ := blockComment_closed taken
    exact ⟨_,.block first,.skip slash (.skip second skips)⟩
  · cases taken

theorem comment_blocked {stopped : σ} (slash : Cursor.lookahead s = some '/')
    (refused : comment s = .declined stopped) :
    (LoneSlash (ahead s) ∧ stopped = Cursor.skip s) ∨ (Unclosed (ahead s) ∧ SkipsOver (ahead s) s stopped) := by
  obtain ⟨rest,here,_,after⟩ := ahead_cons slash
  unfold comment at refused
  split at refused
  · cases refused
  · rename_i second
    obtain ⟨rest,behind,_,inner⟩ := ahead_cons second
    obtain ⟨unclosed,skips⟩ := blockComment_open refused
    rw [inner] at unclosed skips
    rw [here,← after,behind]
    exact .inr ⟨⟨rest,rfl,unclosed⟩,.skip slash (.skip second skips)⟩
  · rename_i lineless blockless
    cases refused
    rw [lookahead_eq,after] at lineless blockless
    exact .inl ⟨⟨rest,here,lineless,blockless⟩,rfl⟩

inductive Stops : σ → Attempt σ → Prop where
  | solid : (Cursor.lookahead front).any Character.isSpace = false → Cursor.lookahead front ≠ some '/' →
      Stops front (.accepted front)
  | lone : LoneSlash (ahead front) → Stops front (.declined (Cursor.skip front))
  | unclosed : Unclosed (ahead front) → SkipsOver (ahead front) front stopped → Stops front (.declined stopped)

theorem trivia_stops (s : σ) : ∃ text front, SkipsOver text s front ∧ Items text (ahead front) ∧
    Stops front (trivia s) := by
  have spaces : ∀ s : σ, ∀ c ∈ (ahead s).takeWhile Character.isSpace, Character.isSpace c = true :=
    fun _ => List.all_eq_true.mp List.all_takeWhile
  fun_induction trivia s with
  | case1 =>
      rename_i s _ slash _ after taken _ ih
      obtain ⟨text,front,skips,items,stops⟩ := ih
      obtain ⟨item,piece,through⟩ := comment_item slash taken
      rw [skips.text] at piece
      exact ⟨_,front,(skipWhile_over _ s).trans (through.trans skips),
        (items_spaces (spaces s)).append (.cons piece items),stops⟩
  | case2 =>
      rename_i s _ slash _ stopped refused
      refine ⟨_,_,skipWhile_over _ s,items_spaces (spaces s),?_⟩
      rcases comment_blocked slash refused with ⟨lone,rfl⟩ | ⟨unclosed,skips⟩
      · exact .lone lone
      · exact .unclosed unclosed skips
  | case3 =>
      rename_i s _ unslashed
      exact ⟨_,_,skipWhile_over _ s,items_spaces (spaces s),.solid (skipWhile_stopped _ s) unslashed⟩

theorem Stops.settled {front : σ} {outcome : Attempt σ} (stops : Stops front outcome) : Settled (ahead front) := by
  cases stops with
  | solid spaceless slashless =>
      rw [lookahead_eq] at spaceless slashless
      exact settled_solid spaceless slashless
  | lone lone => exact lone.settled
  | unclosed unclosed _ => exact unclosed.settled

theorem Stops.accepted_exact {front : σ} {outcome : Attempt σ} (stops : Stops front outcome) :
    outcome.isAccepted = true ↔ (ahead front).head? ≠ some '/' := by
  cases stops with
  | solid _ slashless => simpa [Attempt.isAccepted,← lookahead_eq] using slashless
  | lone lone => simp [Attempt.isAccepted,lone.slash]
  | unclosed unclosed _ => simp [Attempt.isAccepted,unclosed.slash]

theorem Stops.declined_exact {front : σ} {outcome : Attempt σ} (stops : Stops front outcome) :
    outcome.isAccepted = false ↔ LoneSlash (ahead front) ∨ Unclosed (ahead front) := by
  cases stops with
  | solid _ slashless =>
      rw [lookahead_eq] at slashless
      simp only [Attempt.isAccepted,Bool.true_eq_false,false_iff]
      rintro (lone | unclosed)
      · exact slashless lone.slash
      · exact slashless unclosed.slash
  | lone lone => simp [Attempt.isAccepted,lone]
  | unclosed unclosed _ => simp [Attempt.isAccepted,unclosed]

theorem Stops.accepted_front {front : σ} {outcome : Attempt σ} (stops : Stops front outcome)
    (taken : outcome.isAccepted = true) : outcome = .accepted front := by
  cases stops with
  | solid => rfl
  | lone => cases taken
  | unclosed => cases taken

theorem Stops.lone_declined {front : σ} {outcome : Attempt σ} (stops : Stops front outcome)
    (lone : LoneSlash (ahead front)) : outcome = .declined (Cursor.skip front) := by
  cases stops with
  | solid _ slashless => exact absurd ((lookahead_eq front).trans lone.slash) slashless
  | lone => rfl
  | unclosed unclosed _ => exact absurd lone unclosed.not_lone

theorem Stops.unclosed_declined {front : σ} {outcome : Attempt σ} (stops : Stops front outcome)
    (unclosed : Unclosed (ahead front)) :
    ∃ stopped, outcome = .declined stopped ∧ SkipsOver (ahead front) front stopped := by
  cases stops with
  | solid _ slashless => exact absurd ((lookahead_eq front).trans unclosed.slash) slashless
  | lone lone => exact absurd lone unclosed.not_lone
  | unclosed _ rest => exact ⟨_,rfl,rest⟩

-- Every text splits in one way into trivia and what is none. The cursor passes the
-- trivia one character at a time; a slash in front of it is never part of that.
theorem trivia_exact (s : σ) : ∃ text rest, ahead s = text ++ rest ∧ Items text rest ∧ Settled rest ∧
    (∀ other behind, ahead s = other ++ behind → Items other behind → Settled behind →
      other = text ∧ behind = rest) ∧
    ((trivia s).isAccepted = true ↔ rest.head? ≠ some '/') ∧
    ((trivia s).isAccepted = true → SkipsOver text s (trivia s).cursor ∧ ahead (trivia s).cursor = rest) ∧
    ((trivia s).isAccepted = false ↔ LoneSlash rest ∨ Unclosed rest) ∧
    (LoneSlash rest → SkipsOver (text ++ ['/']) s (trivia s).cursor ∧ rest = '/' :: ahead (trivia s).cursor) ∧
    (Unclosed rest → SkipsOver (text ++ rest) s (trivia s).cursor ∧ ahead (trivia s).cursor = []) := by
  obtain ⟨text,front,skips,items,stops⟩ := trivia_stops s
  refine ⟨text,ahead front,skips.text,items,stops.settled,?_,stops.accepted_exact,?_,stops.declined_exact,?_,?_⟩
  · intro other behind same items' settled'
    exact items_unique items' items settled' stops.settled (same.symm.trans skips.text)
  · intro taken
    rw [stops.accepted_front taken]
    exact ⟨skips,rfl⟩
  · intro lone
    rw [stops.lone_declined lone]
    have slash := SkipsOver.skip ((lookahead_eq front).trans lone.slash) (.refl (Cursor.skip front))
    exact ⟨skips.trans slash,slash.text⟩
  · intro unclosed
    obtain ⟨stopped,outcome,rest⟩ := stops.unclosed_declined unclosed
    rw [outcome]
    exact ⟨skips.trans rest,List.self_eq_append_right.mp rest.text⟩

theorem trivia_exact_starred :
    (trivia (Recorder.startAt ['/','*','*','*','/',' ','/'] 0 [])).isAccepted = false ∧
    SkipsOver ['/','*','*','*','/',' ','/'] (Recorder.startAt ['/','*','*','*','/',' ','/'] 0 [])
      (trivia (Recorder.startAt ['/','*','*','*','/',' ','/'] 0 [])).cursor := by
  have lone : LoneSlash ['/'] := ⟨[],rfl,by decide,by decide⟩
  have comment : Item ['/','*','*','*','/'] [' ','/'] := @Item.block ['*'] _ (by simp [closer_cons])
  have items : Items (['/','*','*','*','/'] ++ ([' '] ++ [])) ['/'] :=
    .cons comment (.cons (.space (by decide)) .nil)
  obtain ⟨text,rest,_,_,_,unique,_,_,declined,behind,_⟩ :=
    trivia_exact (Recorder.startAt ['/','*','*','*','/',' ','/'] 0 [])
  obtain ⟨rfl,rfl⟩ := unique _ _ rfl items lone.settled
  exact ⟨declined.mpr (.inl lone),(behind lone).1⟩

end Trivia
end ContextScan
