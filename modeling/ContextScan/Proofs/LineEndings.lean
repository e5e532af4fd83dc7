import ContextScan.Proofs.Primitives

namespace ContextScan.Text

def crlf (text : List Char) : List Char := text.flatMap (fun c => if c = '\n' then ['\r','\n'] else [c])

theorem crlf_append (a b : List Char) : crlf (a ++ b) = crlf a ++ crlf b := List.flatMap_append

theorem crlf_feed (cs : List Char) : crlf ('\n' :: cs) = '\r' :: '\n' :: crlf cs := by
  simp [crlf,List.flatMap_cons]

theorem crlf_cons {c : Char} (other : c ≠ '\n') (cs : List Char) : crlf (c :: cs) = c :: crlf cs := by
  simp [crlf,List.flatMap_cons,other]

theorem width_le_crlf (cs : List Char) : width cs ≤ width (crlf cs) := by
  induction cs with
  | nil => exact Nat.le_refl _
  | cons c cs ih =>
      by_cases feed : c = '\n'
      · subst feed
        rw [crlf_feed]
        simp only [width]
        omega
      · rw [crlf_cons feed]
        simp only [width]
        omega

end ContextScan.Text

namespace ContextScan
open Text Trivia Recognizer

universe u v

def Attempt.map {σ : Type u} {τ : Type v} (f : σ → τ) : Attempt σ → Attempt τ
  | .accepted s => .accepted (f s)
  | .declined s => .declined (f s)

theorem Attempt.map_of {σ : Type u} {τ : Type v} (f : σ → τ) (content : Bool) (s : σ) :
    (Attempt.of content s).map f = .of content (f s) := by
  cases content <;> rfl

-- A cursor that knows a position only by the text that follows it. It has no
-- regions, and it keeps what a token's bounds are told from.
structure Remainder where
  ahead : List Char
  start : List Char
  stop : Option (List Char)
  content : Bool

namespace Remainder

def moved (s : Remainder) : List Char := if s.content then s.start else s.ahead.tail

instance : Cursor Remainder where
  lookahead s := s.ahead.head?
  advance s := {s with ahead := s.ahead.tail, content := true}
  skip s := {s with ahead := s.ahead.tail, start := s.moved}
  markEnd s := {s with stop := some s.ahead}
  atRegionStart _ := false
  remaining s := s.ahead.length
  advance_lt _ present := Recorder.tail_shorter present
  skip_lt _ present := Recorder.tail_shorter present
  markEnd_le _ := Nat.le_refl _

instance : TextCursor Remainder where
  ahead := Remainder.ahead
  lookahead_eq _ := rfl
  ahead_advance _ := rfl
  ahead_skip _ := rfl
  ahead_markEnd _ := rfl

def crlf (s : Remainder) : Remainder := ⟨Text.crlf s.ahead,Text.crlf s.start,s.stop.map Text.crlf,s.content⟩

variable {s : Remainder} {c : Char}

theorem crlf_ended (ended : Cursor.lookahead s = none) : Cursor.lookahead s.crlf = none := by
  obtain ⟨ahead,_,_,_⟩ := s
  cases ahead with
  | nil => rfl
  | cons => cases ended

theorem crlf_other (found : Cursor.lookahead s = some c) (other : c ≠ '\n') : Cursor.lookahead s.crlf = some c ∧
    Cursor.skip s.crlf = (Cursor.skip s).crlf ∧ Cursor.advance s.crlf = (Cursor.advance s).crlf := by
  obtain ⟨ahead,start,stop,content⟩ := s
  cases ahead with
  | nil => cases found
  | cons d rest =>
      cases found
      have wide := crlf_cons other rest
      cases content <;> simp [Cursor.lookahead,Cursor.skip,Cursor.advance,crlf,moved,wide]

theorem crlf_feed (found : Cursor.lookahead s = some '\n') : Cursor.lookahead s.crlf = some '\r' ∧
    Cursor.lookahead (Cursor.skip s.crlf) = some '\n' ∧
    Cursor.skip (Cursor.skip s.crlf) = (Cursor.skip s).crlf := by
  obtain ⟨ahead,start,stop,content⟩ := s
  cases ahead with
  | nil => cases found
  | cons d rest =>
      cases found
      have wide := Text.crlf_feed rest
      cases content <;> simp [Cursor.lookahead,Cursor.skip,crlf,moved,wide]

theorem crlf_markEnd (s : Remainder) : Cursor.markEnd s.crlf = (Cursor.markEnd s).crlf := rfl

theorem crlf_lookahead (s : Remainder) :
    Cursor.lookahead s.crlf = (Cursor.lookahead s).map (fun c => if c = '\n' then '\r' else c) := by
  cases found : Cursor.lookahead s with
  | none => exact crlf_ended found
  | some c =>
      by_cases feed : c = '\n'
      · subst feed
        exact (crlf_feed found).1
      · rw [(crlf_other found feed).1]
        simp [feed]

theorem crlf_sees (s : Remainder) (feedless : c ≠ '\n') (returnless : c ≠ '\r') :
    Cursor.lookahead s.crlf = some c ↔ Cursor.lookahead s = some c := by
  rw [crlf_lookahead]
  cases Cursor.lookahead s with
  | none => simp
  | some d =>
      by_cases feed : d = '\n'
      · subst feed
        simp [feedless.symm,returnless.symm]
      · simp [feed]

theorem skipWhile_crlf (s : Remainder) :
    skipWhile Character.isSpace s.crlf = (skipWhile Character.isSpace s).crlf := by
  fun_induction skipWhile Character.isSpace s with
  | case1 s ended => exact skipWhile_stop (by simp [crlf_ended ended])
  | case2 s c found _ passed ih =>
      by_cases feed : c = '\n'
      · subst feed
        obtain ⟨first,second,both⟩ := crlf_feed found
        rw [skipWhile_pass first (by decide),skipWhile_pass second (by decide),both]
        exact ih
      · obtain ⟨same,past,_⟩ := crlf_other found feed
        rw [skipWhile_pass same passed,past]
        exact ih
  | case3 s c found _ stays =>
      have feed : c ≠ '\n' := by rintro rfl; exact stays (by decide)
      exact skipWhile_stop (by simpa [(crlf_other found feed).1] using stays)

theorem blockComment_crlf (s : Remainder) : blockComment s.crlf = (blockComment s).map crlf := by
  fun_induction blockComment s with
  | case1 s ended => exact blockComment_end (crlf_ended ended)
  | case2 s c found _ closes =>
      obtain ⟨rfl,slash⟩ := closes
      obtain ⟨star,past,_⟩ := crlf_other found (by decide)
      obtain ⟨second,after,_⟩ := crlf_other slash (by decide)
      rw [← past] at second
      rw [blockComment_close star second,past,after]
      rfl
  | case3 s c found _ opened ih =>
      by_cases feed : c = '\n'
      · subst feed
        obtain ⟨first,second,both⟩ := crlf_feed found
        rw [blockComment_pass first (by simp),blockComment_pass second (by simp),both]
        exact ih
      · obtain ⟨same,past,_⟩ := crlf_other found feed
        have still : ¬(c = '*' ∧ Cursor.lookahead (Cursor.skip s.crlf) = some '/') := by
          rw [past,crlf_sees _ (by decide) (by decide)]
          exact opened
        rw [blockComment_pass same still,past]
        exact ih

theorem trivia_space (found : Cursor.lookahead s = some c) (space : Character.isSpace c = true) :
    trivia (Cursor.skip s) = trivia s := by
  have same := skipWhile_pass found space
  by_cases slash : Cursor.lookahead (skipWhile Character.isSpace s) = some '/'
  · cases taken : comment (skipWhile Character.isSpace s) with
    | accepted after => rw [trivia_comment slash taken,trivia_comment (same ▸ slash) (same ▸ taken)]
    | declined stopped => rw [trivia_declined slash taken,trivia_declined (same ▸ slash) (same ▸ taken)]
  · rw [trivia_solid slash,trivia_solid (same ▸ slash),same]

-- A line comment takes the carriage return with it and leaves the line feed,
-- which trivia passes as white space. So the two meet again behind the line.
theorem trivia_line_crlf (s : Remainder) :
    trivia (skipWhile (· != '\n') s.crlf) = trivia (skipWhile (· != '\n') s).crlf := by
  fun_induction skipWhile (· != '\n') s with
  | case1 s ended => rw [skipWhile_stop (by simp [crlf_ended ended])]
  | case2 s c found _ passed ih =>
      obtain ⟨same,past,_⟩ := crlf_other found (by simpa using passed)
      rw [skipWhile_pass same passed,past]
      exact ih
  | case3 s c found _ stays =>
      have feed : c = '\n' := by simpa using stays
      subst feed
      obtain ⟨first,second,_⟩ := crlf_feed found
      rw [skipWhile_pass first (by decide),skipWhile_stop (by simp [second])]
      exact trivia_space first (by decide)

theorem comment_crlf (slash : Cursor.lookahead s = some '/') :
    (∃ after wide, comment s = .accepted after ∧ comment s.crlf = .accepted wide ∧ trivia wide = trivia after.crlf) ∨
    ∃ stopped, comment s = .declined stopped ∧ comment s.crlf = .declined stopped.crlf := by
  obtain ⟨_,past,_⟩ := crlf_other slash (by decide)
  unfold comment
  rw [past]
  split
  · rename_i second
    obtain ⟨same,after,_⟩ := crlf_other second (by decide)
    rw [same,after]
    exact .inl ⟨_,_,rfl,rfl,trivia_line_crlf _⟩
  · rename_i second
    obtain ⟨same,after,_⟩ := crlf_other second (by decide)
    rw [same,after]
    simp only [blockComment_crlf]
    cases blockComment (Cursor.skip (Cursor.skip s)) with
    | accepted closed => exact .inl ⟨_,_,rfl,rfl,rfl⟩
    | declined stopped => exact .inr ⟨_,rfl,rfl⟩
  · rename_i lineless blockless
    refine .inr ⟨_,rfl,?_⟩
    split
    · rename_i second
      exact absurd ((crlf_sees _ (by decide) (by decide)).mp second) lineless
    · rename_i second
      exact absurd ((crlf_sees _ (by decide) (by decide)).mp second) blockless
    · rfl

theorem trivia_crlf (s : Remainder) : trivia s.crlf = (trivia s).map crlf := by
  fun_induction trivia s with
  | case1 =>
      rename_i s _ slash _ after taken _ ih
      have front := (crlf_sees (skipWhile Character.isSpace s) (by decide) (by decide)).mpr slash
      rw [← skipWhile_crlf] at front
      rcases comment_crlf slash with ⟨next,wide,first,second,same⟩ | ⟨_,first,_⟩
      · cases taken.symm.trans first
        rw [← skipWhile_crlf] at second
        rw [trivia_comment front second,same]
        exact ih
      · cases taken.symm.trans first
  | case2 =>
      rename_i s _ slash _ stopped refused
      have front := (crlf_sees (skipWhile Character.isSpace s) (by decide) (by decide)).mpr slash
      rw [← skipWhile_crlf] at front
      rcases comment_crlf slash with ⟨_,_,first,_,_⟩ | ⟨_,first,second⟩
      · cases refused.symm.trans first
      · cases refused.symm.trans first
        rw [← skipWhile_crlf] at second
        exact trivia_declined front second
  | case3 =>
      rename_i s _ unslashed
      rw [trivia_solid]
      · exact congrArg Attempt.accepted (skipWhile_crlf s)
      · rw [skipWhile_crlf]
        intro slash
        exact unslashed ((crlf_sees _ (by decide) (by decide)).mp slash)

def lineCrlf : LineEnd Remainder → LineEnd Remainder
  | .ends s => .ends s.crlf
  | .breaks s => .breaks (Cursor.skip s.crlf)
  | .blocked s => .blocked s.crlf

theorem lineEnd_crlf (s : Remainder) : lineEnd s.crlf = lineCrlf (lineEnd s) := by
  have regionless : ∀ t : Remainder, Cursor.atRegionStart t = false := fun _ => rfl
  fun_induction lineEnd s with
  | case1 s ended => exact lineEnd_end (crlf_ended ended)
  | case2 s c found _ ends =>
      have brace : c = '}' := by simpa [regionless] using ends
      subst brace
      rw [lineEnd_some (crlf_other found (by decide)).1,if_pos (.inl rfl)]
      rfl
  | case3 s first found _ =>
      obtain ⟨front,second,_⟩ := crlf_feed found
      rw [lineEnd_some front,if_neg (by simp [regionless]),if_neg (by decide),if_pos (by decide),
        lineEnd_some second,if_neg (by simp [regionless]),if_pos rfl]
      rfl
  | case4 s c found _ unended feed blank ih =>
      obtain ⟨same,past,_⟩ := crlf_other found feed
      have still : ¬(c = '}' ∨ Cursor.atRegionStart s.crlf = true) := unended
      rw [lineEnd_some same,if_neg still,if_neg feed,if_pos blank,past]
      exact ih
  | case5 s c found _ unended feed solid =>
      have still : ¬(c = '}' ∨ Cursor.atRegionStart s.crlf = true) := unended
      rw [lineEnd_some (crlf_other found feed).1,if_neg still,if_neg feed,if_neg solid]
      rfl

theorem semicolon_crlf (s : Remainder) : semicolon s.crlf = (semicolon s).map crlf := by
  unfold semicolon
  rw [crlf_markEnd,lineEnd_crlf]
  cases line : lineEnd (Cursor.markEnd s) with
  | ends stopped => rfl
  | blocked stopped => rfl
  | breaks feed =>
      have both := (crlf_feed (lineEnd_breaks_feed line)).2.2
      simp only [lineCrlf,both,trivia_crlf]
      cases trivia (Cursor.skip feed) with
      | declined stopped => rfl
      | accepted next =>
          have continues : (Cursor.lookahead next.crlf).any Character.continuesStatement =
              (Cursor.lookahead next).any Character.continuesStatement := by
            rw [crlf_lookahead]
            cases Cursor.lookahead next with
            | none => rfl
            | some c =>
                by_cases feed : c = '\n'
                · subst feed; decide
                · simp [feed]
          simp only [Attempt.map,continues]
          exact (Attempt.map_of crlf _ next).symm

theorem ternary_crlf (s : Remainder) : ternary s.crlf = (ternary s).map crlf := by
  unfold ternary
  dsimp only
  rw [skipWhile_crlf]
  have front := crlf_sees (skipWhile Character.isSpace s) (c := '?') (by decide) (by decide)
  by_cases question : Cursor.lookahead (skipWhile Character.isSpace s) = some '?'
  · obtain ⟨_,_,past⟩ := crlf_other question (by decide)
    rw [if_pos question,if_pos (front.mpr question),past]
    have second := crlf_sees (Cursor.advance (skipWhile Character.isSpace s)) (c := '?') (by decide) (by decide)
    by_cases double : Cursor.lookahead (Cursor.advance (skipWhile Character.isSpace s)) = some '?'
    · rw [if_pos double,if_pos (second.mpr double)]
      rfl
    · rw [if_neg double,if_neg (fun wide => double (second.mp wide)),crlf_markEnd,Attempt.map_of]
      congr 1
      rw [Bool.eq_iff_iff,bne_iff_ne,bne_iff_ne,ne_eq,ne_eq,crlf_sees _ (by decide) (by decide)]
  · rw [if_neg question,if_neg (fun wide => question (front.mp wide))]
    rfl

theorem opens_crlf (cs : List Char) : Literal.opens (Text.crlf cs) = Literal.opens cs := by
  cases cs with
  | nil => rfl
  | cons c rest =>
      by_cases feed : c = '\n'
      · subst feed
        rw [Text.crlf_feed]
        rfl
      · rw [crlf_cons feed]
        cases rest with
        | nil => rfl
        | cons d rest =>
            by_cases second : d = '\n'
            · subst second
              rw [Text.crlf_feed]
              rfl
            · rw [crlf_cons second]
              rfl

theorem stops_crlf (kind : Literal) (cs : List Char) : kind.stops (Text.crlf cs) = kind.stops cs := by
  have opens := opens_crlf cs
  cases cs with
  | nil => rfl
  | cons c rest =>
      by_cases feed : c = '\n'
      · subst feed
        cases kind <;> simp [Text.crlf_feed,Literal.stops,Literal.opens]
      · cases kind with
        | template => rw [Literal.stops,Literal.stops,opens,crlf_cons feed]; rfl
        | markup => rw [crlf_cons feed]; rfl

theorem leave_crlf (kind : Literal) (s : Remainder) : kind.leave s.crlf = (kind.leave s).crlf := by
  have opens : Literal.opens s.crlf.ahead = Literal.opens s.ahead := opens_crlf s.ahead
  unfold Literal.leave
  change (if kind = .template ∧ Literal.opens s.crlf.ahead = true then _ else _) =
    crlf (if kind = .template ∧ Literal.opens s.ahead = true then _ else _)
  rw [opens]
  split
  · rename_i opened
    have dollar : Cursor.lookahead (Cursor.markEnd s) = some '$' := Literal.opens_dollar opened.2
    exact (crlf_other dollar (by decide)).2.2
  · rfl

-- A turn stakes its own end before anything else, so an earlier stake is forgotten.
theorem loop_restaked {kind : Literal} {loop : Remainder → Bool → Attempt Remainder} (loops : kind.Loops loop)
    (content : Bool) (s : Remainder) (stop : Option (List Char)) : loop {s with stop := stop} content = loop s content := by
  rw [loops {s with stop := stop},loops s]
  rfl

-- The two characters of a line end are taken one after the other. They stand for
-- the one, except that the end was staked between them.
theorem loop_feed_crlf {kind : Literal} {loop : Remainder → Bool → Attempt Remainder} (loops : kind.Loops loop)
    {rest : List Char} (left : s.ahead = '\n' :: rest) :
    loop (Cursor.advance (Cursor.markEnd s.crlf)) true = loop (Cursor.advance (Cursor.markEnd s)).crlf true := by
  obtain ⟨ahead,start,stop,content⟩ := s
  cases left
  let feed : Remainder := ⟨'\n' :: Text.crlf rest,Text.crlf start,some ('\r' :: '\n' :: Text.crlf rest),true⟩
  have between : Cursor.advance (Cursor.markEnd (crlf ⟨'\n' :: rest,start,stop,content⟩)) = feed := by
    simp only [Cursor.advance,Cursor.markEnd,crlf,Text.crlf_feed rest,List.tail_cons,feed]
  have solid : ¬kind.stops (TextCursor.ahead feed) = true := by
    cases kind <;> simp [TextCursor.ahead,Literal.stops,Literal.opens,feed]
  rw [between,loops feed,if_neg solid]
  exact loop_restaked loops true ⟨Text.crlf rest,Text.crlf start,some (Text.crlf ('\n' :: rest)),true⟩ _

theorem loop_crlf {kind : Literal} {loop : Remainder → Bool → Attempt Remainder} (loops : kind.Loops loop)
    (content : Bool) (s : Remainder) : loop s.crlf content = (loop s content).map crlf := by
  induction left : s.ahead generalizing s content with
  | nil =>
      have here : kind.stops (TextCursor.ahead s) = true := by
        rw [show TextCursor.ahead s = [] from left]
        exact kind.stops_nil
      have wide : kind.stops (TextCursor.ahead s.crlf) = true := (stops_crlf kind s.ahead).trans here
      rw [loops s.crlf,loops s,if_pos wide,if_pos here,Attempt.map_of,leave_crlf]
  | cons c rest ih =>
      have same : kind.stops (TextCursor.ahead s.crlf) = kind.stops (TextCursor.ahead s) := stops_crlf kind s.ahead
      rw [loops s.crlf,loops s,same]
      split
      · rw [Attempt.map_of,leave_crlf]
      · have later := ih true (Cursor.advance (Cursor.markEnd s)) (congrArg List.tail left)
        rw [← later]
        by_cases feed : c = '\n'
        · subst feed
          exact loop_feed_crlf loops left
        · have found : Cursor.lookahead (Cursor.markEnd s) = some c := congrArg List.head? left
          rw [crlf_markEnd,(crlf_other found feed).2.2]

theorem attempt_crlf (token : Token) (s : Remainder) : attempt token s.crlf = (attempt token s).map crlf := by
  cases token with
  | semicolon => exact semicolon_crlf s
  | template => exact loop_crlf template_loops false s
  | ternary => exact ternary_crlf s
  | markup => exact loop_crlf markup_loops false s

theorem dispatch_crlf (valid : TokenSet) (s : Remainder) (order : List Token) :
    (Scan.dispatch valid s.crlf order).token = (Scan.dispatch valid s order).token ∧
    (Scan.dispatch valid s.crlf order).cursor = (Scan.dispatch valid s order).cursor.crlf := by
  induction order with
  | nil => exact ⟨rfl,rfl⟩
  | cons token rest ih =>
      cases allowed : valid.allows token with
      | false => simpa only [Scan.dispatch_refused allowed] using ih
      | true =>
          have both := attempt_crlf token s
          cases outcome : attempt token s with
          | accepted after =>
              rw [outcome] at both
              rw [Scan.dispatch_accepted allowed outcome,Scan.dispatch_accepted allowed both]
              exact ⟨rfl,rfl⟩
          | declined stopped =>
              rw [outcome] at both
              have question : Scan.suppresses valid token stopped.crlf = Scan.suppresses valid token stopped := by
                have sees := crlf_sees stopped (c := '?') (by decide) (by decide)
                unfold Scan.suppresses
                congr 2
                rw [Bool.eq_iff_iff,beq_iff_eq,beq_iff_eq]
                exact sees
              rw [Scan.dispatch_declined allowed outcome,Scan.dispatch_declined allowed both,question]
              split
              · exact ⟨rfl,rfl⟩
              · exact ih

theorem scan_crlf (valid : TokenSet) (s : Remainder) : (scan valid s.crlf).token = (scan valid s).token ∧
    (scan valid s.crlf).cursor = (scan valid s).cursor.crlf := dispatch_crlf valid s Scan.order

end Remainder

end ContextScan
