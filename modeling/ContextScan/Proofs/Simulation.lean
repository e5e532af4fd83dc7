import ContextScan.Proofs.Dispatch

namespace ContextScan
open Trivia Recognizer Dispatch

universe u v

-- Cursors that a host may exchange for one another. They need to agree only on
-- what the scanner can see; steps are matched where the scanner may take them,
-- so nothing is asked of either cursor past the end of input.
structure Simulates {σ : Type u} {τ : Type v} [Cursor σ] [Cursor τ] (R : σ → τ → Prop) : Prop where
  lookahead : ∀ {s t}, R s t → Cursor.lookahead s = Cursor.lookahead t
  atRegionStart : ∀ {s t}, R s t → Cursor.atRegionStart s = Cursor.atRegionStart t
  advance : ∀ {s t}, R s t → (Cursor.lookahead s).isSome = true → R (Cursor.advance s) (Cursor.advance t)
  skip : ∀ {s t}, R s t → (Cursor.lookahead s).isSome = true → R (Cursor.skip s) (Cursor.skip t)
  markEnd : ∀ {s t}, R s t → R (Cursor.markEnd s) (Cursor.markEnd t)

-- A simulation that goes as far as the first cursor shows what it stands at. One
-- that has run out of input may be followed by one that has not: what the scanner
-- does from there is compared with nothing.
structure SimulatesWhile {σ : Type u} {τ : Type v} [Cursor σ] [Cursor τ] (Shown : σ → Prop) (R : σ → τ → Prop) : Prop where
  seen : ∀ {s}, (Cursor.lookahead s).isSome = true → Shown s
  marked : ∀ {s}, Shown (Cursor.markEnd s) → Shown s
  lookahead : ∀ {s t}, R s t → Shown s → Cursor.lookahead s = Cursor.lookahead t
  atRegionStart : ∀ {s t}, R s t → (Cursor.lookahead s).isSome = true → Cursor.atRegionStart s = Cursor.atRegionStart t
  advance : ∀ {s t}, R s t → (Cursor.lookahead s).isSome = true → R (Cursor.advance s) (Cursor.advance t)
  skip : ∀ {s t}, R s t → (Cursor.lookahead s).isSome = true → R (Cursor.skip s) (Cursor.skip t)
  markEnd : ∀ {s t}, R s t → R (Cursor.markEnd s) (Cursor.markEnd t)

theorem Simulates.throughout {σ : Type u} {τ : Type v} [Cursor σ] [Cursor τ] {R : σ → τ → Prop} (sim : Simulates R) :
    SimulatesWhile (fun _ => True) R where
  seen _ := trivial
  marked _ := trivial
  lookahead related _ := sim.lookahead related
  atRegionStart related _ := sim.atRegionStart related
  advance := sim.advance
  skip := sim.skip
  markEnd := sim.markEnd

inductive Attempt.Related {σ : Type u} {τ : Type v} (R : σ → τ → Prop) : Attempt σ → Attempt τ → Prop where
  | accepted : R s t → Related R (.accepted s) (.accepted t)
  | declined : R s t → Related R (.declined s) (.declined t)

theorem Attempt.Related.of {σ : Type u} {τ : Type v} {R : σ → τ → Prop} {s : σ} {t : τ} (content : Bool)
    (related : R s t) : Related R (Attempt.of content s) (Attempt.of content t) := by
  cases content with
  | true => exact .accepted related
  | false => exact .declined related

theorem Attempt.Related.isAccepted {σ : Type u} {τ : Type v} {R : σ → τ → Prop} {a : Attempt σ} {b : Attempt τ}
    (related : Related R a b) : a.isAccepted = b.isAccepted := by
  cases related with
  | accepted => rfl
  | declined => rfl

theorem Attempt.Related.cursor {σ : Type u} {τ : Type v} {R : σ → τ → Prop} {a : Attempt σ} {b : Attempt τ}
    (related : Related R a b) : R a.cursor b.cursor := by
  cases related with
  | accepted both => exact both
  | declined both => exact both

def Recognizer.LineEnd.cursor {σ : Type u} : LineEnd σ → σ
  | .ends s => s
  | .breaks s => s
  | .blocked s => s

inductive Recognizer.LineEnd.Related {σ : Type u} {τ : Type v} (R : σ → τ → Prop) : LineEnd σ → LineEnd τ → Prop where
  | ends : R s t → Related R (.ends s) (.ends t)
  | breaks : R s t → Related R (.breaks s) (.breaks t)
  | blocked : R s t → Related R (.blocked s) (.blocked t)

structure Scan.Related {σ : Type u} {τ : Type v} (R : σ → τ → Prop) (a : Scan σ) (b : Scan τ) : Prop where
  token : a.token = b.token
  cursor : R a.cursor b.cursor
  events : a.events = b.events

inductive Dispatch.Alike {σ : Type u} {τ : Type v} (R : σ → τ → Prop) :
    List (Token × Attempt σ) → List (Token × Attempt τ) → Prop where
  | nil : Alike R [] []
  | cons : Attempt.Related R a b → Alike R left right → Alike R ((token,a) :: left) ((token,b) :: right)

namespace SimulatesWhile
variable {σ : Type u} {τ : Type v} [Cursor σ] [Cursor τ] {Shown : σ → Prop} {R : σ → τ → Prop} {s : σ} {t : τ}

theorem seen_of_some (sim : SimulatesWhile Shown R) (found : Cursor.lookahead s = some c) : Shown s :=
  sim.seen (by simp [found])

theorem lookahead_of_some (sim : SimulatesWhile Shown R) (related : R s t) (found : Cursor.lookahead s = some c) :
    Cursor.lookahead t = some c := (sim.lookahead related (sim.seen_of_some found)).symm.trans found

theorem lookahead_of_none (sim : SimulatesWhile Shown R) (related : R s t) (shown : Shown s)
    (ended : Cursor.lookahead s = none) : Cursor.lookahead t = none :=
  (sim.lookahead related shown).symm.trans ended

theorem region_of_some (sim : SimulatesWhile Shown R) (related : R s t) (found : Cursor.lookahead s = some c) :
    Cursor.atRegionStart s = Cursor.atRegionStart t := sim.atRegionStart related (by simp [found])

theorem skip_of_some (sim : SimulatesWhile Shown R) (related : R s t) (found : Cursor.lookahead s = some c) :
    R (Cursor.skip s) (Cursor.skip t) := sim.skip related (by simp [found])

theorem advance_of_some (sim : SimulatesWhile Shown R) (related : R s t) (found : Cursor.lookahead s = some c) :
    R (Cursor.advance s) (Cursor.advance t) := sim.advance related (by simp [found])

-- What runs out of input where it begins also ends there, so what shows at the
-- end has shown all the way.
theorem shown (sim : SimulatesWhile Shown R) (ended : Cursor.lookahead s = none → Shown s) : Shown s := by
  cases found : Cursor.lookahead s with
  | none => exact ended found
  | some c => exact sim.seen_of_some found

theorem skipWhile (sim : SimulatesWhile Shown R) (passes : Char → Bool) (related : R s t)
    (shown : Shown (skipWhile passes s)) : R (skipWhile passes s) (skipWhile passes t) := by
  fun_induction Trivia.skipWhile passes s generalizing t with
  | case1 s ended =>
      rw [skipWhile_stop (by simp [sim.lookahead_of_none related shown ended])]
      exact related
  | case2 s c found _ passed ih =>
      rw [skipWhile_pass (sim.lookahead_of_some related found) passed]
      exact ih (sim.skip_of_some related found) shown
  | case3 s c found _ stays =>
      rw [skipWhile_stop (by simpa [sim.lookahead_of_some related found] using stays)]
      exact related

theorem blockComment (sim : SimulatesWhile Shown R) (related : R s t) (shown : Shown (blockComment s).cursor) :
    Attempt.Related R (blockComment s) (blockComment t) := by
  fun_induction Trivia.blockComment s generalizing t with
  | case1 s ended =>
      rw [blockComment_end (sim.lookahead_of_none related shown ended)]
      exact .declined related
  | case2 s c found _ closes =>
      obtain ⟨rfl,slash⟩ := closes
      have second := sim.skip_of_some related found
      rw [blockComment_close (sim.lookahead_of_some related found) (sim.lookahead_of_some second slash)]
      exact .accepted (sim.skip_of_some second slash)
  | case3 s c found _ opened ih =>
      have second := sim.skip_of_some related found
      have there := sim.shown (fun ended => by rwa [blockComment_end ended] at shown)
      rw [blockComment_pass (sim.lookahead_of_some related found) (by rwa [← sim.lookahead second there])]
      exact ih second shown

theorem comment (sim : SimulatesWhile Shown R) (related : R s t) (slash : Cursor.lookahead s = some '/')
    (shown : Shown (comment s).cursor) : Attempt.Related R (comment s) (comment t) := by
  have second := sim.skip_of_some related slash
  have there : Shown (Cursor.skip s) := by
    apply sim.shown
    intro ended
    rwa [Trivia.comment,ended] at shown
  unfold Trivia.comment at shown ⊢
  rw [← sim.lookahead second there]
  split at shown
  · rename_i found
    exact .accepted (sim.skipWhile _ (sim.skip_of_some second found) shown)
  · rename_i found
    exact sim.blockComment (sim.skip_of_some second found) shown
  · exact .declined second

theorem trivia (sim : SimulatesWhile Shown R) (related : R s t) (shown : Shown (trivia s).cursor) :
    Attempt.Related R (trivia s) (trivia t) := by
  fun_induction Trivia.trivia s generalizing t with
  | case1 =>
      rename_i s _ slash _ after taken _ ih
      have there : Shown after := sim.shown (fun ended => by rwa [trivia_end ended] at shown)
      have next := sim.skipWhile Character.isSpace related (sim.seen_of_some slash)
      have both := sim.comment next slash (by rw [taken]; exact there)
      have other := sim.lookahead_of_some next slash
      generalize second : Trivia.comment (Trivia.skipWhile Character.isSpace t) = outcome at both
      rw [taken] at both
      cases both with
      | accepted rest =>
          rw [trivia_comment other second]
          exact ih rest shown
  | case2 =>
      rename_i s _ slash _ stopped refused
      have next := sim.skipWhile Character.isSpace related (sim.seen_of_some slash)
      have both := sim.comment next slash (by rw [refused]; exact shown)
      have other := sim.lookahead_of_some next slash
      generalize second : Trivia.comment (Trivia.skipWhile Character.isSpace t) = outcome at both
      rw [refused] at both
      cases both with
      | declined rest =>
          rw [trivia_declined other second]
          exact .declined rest
  | case3 =>
      rename_i s _ unslashed
      have next := sim.skipWhile Character.isSpace related shown
      rw [trivia_solid (by rw [← sim.lookahead next shown]; exact unslashed)]
      exact .accepted next

theorem lineEnd (sim : SimulatesWhile Shown R) (related : R s t) (shown : Shown (lineEnd s).cursor) :
    LineEnd.Related R (lineEnd s) (lineEnd t) := by
  fun_induction Recognizer.lineEnd s generalizing t with
  | case1 s ended =>
      rw [lineEnd_end (sim.lookahead_of_none related shown ended)]
      exact .ends related
  | case2 s c found _ ends =>
      rw [lineEnd_some (sim.lookahead_of_some related found),← sim.region_of_some related found,if_pos ends]
      exact .ends related
  | case3 s _ found unended =>
      rw [lineEnd_some (sim.lookahead_of_some related found),← sim.region_of_some related found,if_neg unended,if_pos rfl]
      exact .breaks related
  | case4 s c found _ unended feedless blank ih =>
      rw [lineEnd_some (sim.lookahead_of_some related found),← sim.region_of_some related found,if_neg unended,
        if_neg feedless,if_pos blank]
      exact ih (sim.skip_of_some related found) shown
  | case5 s c found _ unended feedless solid =>
      rw [lineEnd_some (sim.lookahead_of_some related found),← sim.region_of_some related found,if_neg unended,
        if_neg feedless,if_neg solid]
      exact .blocked related

theorem semicolon (sim : SimulatesWhile Shown R) (related : R s t) (shown : Shown (semicolon s).cursor) :
    Attempt.Related R (semicolon s) (semicolon t) := by
  have reached : Shown (Recognizer.lineEnd (Cursor.markEnd s)).cursor := by
    unfold Recognizer.semicolon at shown
    cases outcome : Recognizer.lineEnd (Cursor.markEnd s) with
    | ends stopped => rw [outcome] at shown; exact shown
    | blocked stopped => rw [outcome] at shown; exact shown
    | breaks feed => exact sim.seen_of_some (lineEnd_breaks_feed outcome)
  have line := sim.lineEnd (sim.markEnd related) reached
  unfold Recognizer.semicolon at shown ⊢
  generalize first : Recognizer.lineEnd (Cursor.markEnd s) = a at line shown
  generalize Recognizer.lineEnd (Cursor.markEnd t) = b at line
  cases line with
  | ends stopped => exact .accepted stopped
  | blocked stopped => exact .declined stopped
  | @breaks left right feed =>
      dsimp only at shown ⊢
      have there : Shown (Trivia.trivia (Cursor.skip left)).cursor := by
        cases outcome : Trivia.trivia (Cursor.skip left) with
        | declined stopped => rw [outcome] at shown; exact shown
        | accepted next =>
            rw [outcome] at shown
            dsimp only at shown
            rwa [Attempt.cursor_of] at shown
      have past := sim.trivia (sim.skip_of_some feed (lineEnd_breaks_feed first)) there
      generalize Trivia.trivia (Cursor.skip left) = c at past there ⊢
      generalize Trivia.trivia (Cursor.skip right) = d at past ⊢
      cases past with
      | declined stopped => exact .declined stopped
      | accepted next =>
          dsimp only
          rw [sim.lookahead next there]
          exact .of _ next

theorem template (sim : SimulatesWhile Shown R) (content : Bool) (related : R s t)
    (shown : Shown (template s content).cursor) : Attempt.Related R (template s content) (template t content) := by
  fun_induction Recognizer.template s content generalizing t with
  | case1 s content ended =>
      have marked := sim.markEnd related
      rw [Attempt.cursor_of] at shown
      rw [template_end (sim.lookahead_of_none marked shown ended)]
      exact .of content marked
  | case2 s content c found _ closes =>
      have marked := sim.markEnd related
      rw [template_some (sim.lookahead_of_some marked found),if_pos closes]
      exact .of content marked
  | case3 s content c found _ literal opens =>
      have marked := sim.markEnd related
      have past := sim.advance_of_some marked found
      have brace : Cursor.lookahead (Cursor.advance (Cursor.markEnd t)) = some '{' := sim.lookahead_of_some past opens.2
      rw [template_some (sim.lookahead_of_some marked found),if_neg literal,if_pos ⟨opens.1,brace⟩]
      exact .of content past
  | case4 s content c found _ literal unopened ih =>
      have marked := sim.markEnd related
      have past := sim.advance_of_some marked found
      have there : Shown (Cursor.advance (Cursor.markEnd s)) := by
        apply sim.marked
        apply sim.shown
        intro ended
        rwa [template_end ended,Attempt.cursor_of] at shown
      rw [template_some (sim.lookahead_of_some marked found),if_neg literal,← sim.lookahead past there,if_neg unopened]
      exact ih past shown

theorem ternary (sim : SimulatesWhile Shown R) (related : R s t) (shown : Shown (ternary s).cursor) :
    Attempt.Related R (ternary s) (ternary t) := by
  have reached : Shown (Trivia.skipWhile Character.isSpace s) := by
    apply sim.shown
    intro ended
    simpa [Recognizer.ternary,ended,Attempt.cursor] using shown
  have mark := sim.skipWhile Character.isSpace related reached
  unfold Recognizer.ternary at shown ⊢
  dsimp only at shown ⊢
  rw [← sim.lookahead mark reached]
  by_cases found : Cursor.lookahead (Trivia.skipWhile Character.isSpace s) = some '?'
  · rw [if_pos found] at shown ⊢
    rw [if_pos found]
    have past := sim.advance_of_some mark found
    have there : Shown (Cursor.advance (Trivia.skipWhile Character.isSpace s)) := by
      split at shown
      · exact shown
      · rw [Attempt.cursor_of] at shown
        exact sim.marked shown
    rw [← sim.lookahead past there]
    split
    · exact .declined past
    · rename_i single
      rw [if_neg single,Attempt.cursor_of] at shown
      rw [← sim.lookahead (sim.markEnd past) shown]
      exact .of _ (sim.markEnd past)
  · rw [if_neg found,if_neg found]
    exact .declined mark

theorem markup (sim : SimulatesWhile Shown R) (content : Bool) (related : R s t)
    (shown : Shown (markup s content).cursor) : Attempt.Related R (markup s content) (markup t content) := by
  fun_induction Recognizer.markup s content generalizing t with
  | case1 s content ended =>
      have marked := sim.markEnd related
      rw [Attempt.cursor_of] at shown
      rw [markup_end (sim.lookahead_of_none marked shown ended)]
      exact .of content marked
  | case2 s content c found _ opens =>
      have marked := sim.markEnd related
      rw [markup_some (sim.lookahead_of_some marked found),if_pos opens]
      exact .of content marked
  | case3 s content c found _ literal ih =>
      have marked := sim.markEnd related
      rw [markup_some (sim.lookahead_of_some marked found),if_neg literal]
      exact ih (sim.advance_of_some marked found) shown

theorem attempt (sim : SimulatesWhile Shown R) (token : Token) (related : R s t)
    (shown : Shown (attempt token s).cursor) : Attempt.Related R (attempt token s) (attempt token t) := by
  cases token with
  | semicolon => exact sim.semicolon related shown
  | template => exact sim.template false related shown
  | ternary => exact sim.ternary related shown
  | markup => exact sim.markup false related shown

theorem suppresses (sim : SimulatesWhile Shown R) (valid : TokenSet) (token : Token) (related : R s t)
    (shown : Shown s) : Scan.suppresses valid token s = Scan.suppresses valid token t := by
  rw [Scan.suppresses,Scan.suppresses,sim.lookahead related shown]

theorem trials (sim : SimulatesWhile Shown R) (valid : TokenSet) (order : List Token) (related : R s t)
    (shown : ∀ trial ∈ trials valid s order, Shown trial.2.cursor) :
    Alike R (trials valid s order) (trials valid t order) := by
  induction order with
  | nil => exact .nil
  | cons token rest ih =>
      unfold Dispatch.trials at shown ⊢
      split
      · rename_i allowed
        rw [if_pos allowed] at shown
        have there := shown _ List.mem_cons_self
        have both := sim.attempt token related there
        refine .cons both ?_
        rw [← both.isAccepted,← sim.suppresses valid token both.cursor there]
        split
        · exact .nil
        · rename_i goes
          rw [if_neg goes] at shown
          exact ih (fun trial tried => shown trial (List.mem_cons_of_mem _ tried))
      · rename_i refused
        rw [if_neg refused] at shown
        exact ih shown

theorem answer (sim : SimulatesWhile Shown R) (valid : TokenSet) (related : R s t) {left : List (Token × Attempt σ)}
    {right : List (Token × Attempt τ)} (alike : Alike R left right) (shown : ∀ trial ∈ left, Shown trial.2.cursor) :
    Scan.Related R (answer valid s left) (answer valid t right) := by
  induction alike with
  | nil => exact ⟨rfl,related,rfl⟩
  | @cons a b left right token both rest ih =>
      cases rest with
      | nil =>
          have there := shown _ List.mem_cons_self
          cases both with
          | accepted after => exact ⟨rfl,after,rfl⟩
          | declined stopped =>
              refine ⟨rfl,related,?_⟩
              simp only [Dispatch.answer,List.getLast?_singleton]
              rw [← sim.suppresses valid token stopped there]
      | cons => exact ih (fun trial tried => shown trial (List.mem_cons_of_mem _ tried))

theorem dispatch (sim : SimulatesWhile Shown R) (valid : TokenSet) (order : List Token) (related : R s t)
    (shown : ∀ trial ∈ Dispatch.trials valid s order, Shown trial.2.cursor) :
    Scan.Related R (Scan.dispatch valid s order) (Scan.dispatch valid t order) := by
  rw [dispatch_trials,dispatch_trials]
  exact sim.answer valid related (sim.trials valid order related shown) shown

theorem scan (sim : SimulatesWhile Shown R) (valid : TokenSet) (related : R s t)
    (shown : ∀ trial ∈ Dispatch.trials valid s Scan.order, Shown trial.2.cursor) :
    Scan.Related R (scan valid s) (scan valid t) := by
  obtain ⟨token,cursor,events⟩ := sim.dispatch valid Scan.order related shown
  exact ⟨token,cursor,by simp only [ContextScan.scan,token,events]⟩

end SimulatesWhile

theorem Simulates.scan {σ : Type u} {τ : Type v} [Cursor σ] [Cursor τ] {R : σ → τ → Prop} {s : σ} {t : τ}
    (sim : Simulates R) (valid : TokenSet) (related : R s t) : Scan.Related R (scan valid s) (scan valid t) :=
  sim.throughout.scan valid related (fun _ _ => trivial)

-- What every step keeps, scanning keeps: a cursor is followed beside itself.
theorem scan_keeps {σ : Type u} [Cursor σ] {P : σ → Prop} {s : σ}
    (advance : ∀ {s}, P s → (Cursor.lookahead s).isSome = true → P (Cursor.advance s))
    (skip : ∀ {s}, P s → (Cursor.lookahead s).isSome = true → P (Cursor.skip s))
    (markEnd : ∀ {s}, P s → P (Cursor.markEnd s)) (valid : TokenSet) (holds : P s) :
    P (scan valid s).cursor := by
  have sim : Simulates (fun s t : σ => s = t ∧ P s) := by
    refine ⟨?_,?_,?_,?_,?_⟩
    · rintro s t ⟨rfl,_⟩; rfl
    · rintro s t ⟨rfl,_⟩; rfl
    · rintro s t ⟨rfl,kept⟩ found; exact ⟨rfl,advance kept found⟩
    · rintro s t ⟨rfl,kept⟩ found; exact ⟨rfl,skip kept found⟩
    · rintro s t ⟨rfl,kept⟩; exact ⟨rfl,markEnd kept⟩
  exact (sim.scan valid ⟨rfl,holds⟩).cursor.2

end ContextScan
