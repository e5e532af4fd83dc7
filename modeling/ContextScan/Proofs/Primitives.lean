import ContextScan.Proofs.Dispatch
import ContextScan.Proofs.Simulation
import ContextScan.Source

namespace ContextScan
open Trivia Recognizer

universe u

-- A cursor whose characters are known to whoever reasons about it. Where it
-- stands, what it has marked and where regions start is left open.
class TextCursor (σ : Type u) [Cursor σ] where
  ahead : σ → List Char
  lookahead_eq : ∀ s, Cursor.lookahead s = (ahead s).head?
  ahead_advance : ∀ s, ahead (Cursor.advance s) = (ahead s).tail
  ahead_skip : ∀ s, ahead (Cursor.skip s) = (ahead s).tail
  ahead_markEnd : ∀ s, ahead (Cursor.markEnd s) = ahead s

instance : TextCursor Recorder where
  ahead := Recorder.ahead
  lookahead_eq _ := rfl
  ahead_advance _ := rfl
  ahead_skip _ := rfl
  ahead_markEnd _ := rfl

theorem Place.next_ahead (p : Place) : p.next.ahead = p.ahead.tail := by
  obtain ⟨behind,ahead,offset⟩ := p
  cases ahead <;> rfl

instance : TextCursor Source where
  ahead s := s.place.ahead
  lookahead_eq _ := rfl
  ahead_advance s := s.place.next_ahead
  ahead_skip s := s.place.next_ahead
  ahead_markEnd _ := rfl

namespace TextCursor
variable {σ : Type u} [Cursor σ] [TextCursor σ] {s : σ}

theorem ahead_cons {c : Char} (found : Cursor.lookahead s = some c) :
    ∃ rest, ahead s = c :: rest ∧ ahead (Cursor.advance s) = rest ∧ ahead (Cursor.skip s) = rest := by
  rw [lookahead_eq] at found
  cases text : ahead s with
  | nil => simp [text] at found
  | cons d rest =>
      have same : d = c := by simpa [text] using found
      exact ⟨rest,by rw [same],by rw [ahead_advance,text]; rfl,by rw [ahead_skip,text]; rfl⟩

theorem ahead_nil (ended : Cursor.lookahead s = none) : ahead s = [] := by
  rw [lookahead_eq] at ended
  exact List.head?_eq_none_iff.mp ended

end TextCursor
open TextCursor

-- Calls of a cursor's primitives, in their order, and what they lead to. Nothing
-- is passed where there is no character: no law says what that would do.
inductive Calls {σ : Type u} [Cursor σ] : σ → List Primitive → σ → Prop where
  | nil : Calls s [] s
  | advance : (Cursor.lookahead s).isSome = true → Calls (Cursor.advance s) calls t →
      Calls s (.advance :: calls) t
  | skip : (Cursor.lookahead s).isSome = true → Calls (Cursor.skip s) calls t → Calls s (.skip :: calls) t
  | markEnd : Calls (Cursor.markEnd s) calls t → Calls s (.markEnd :: calls) t

section
variable {σ : Type u} [Cursor σ] {s t m : σ}

theorem Calls.append {first second : List Primitive} (left : Calls s first m) (right : Calls m second t) :
    Calls s (first ++ second) t := by
  induction left with
  | nil => exact right
  | advance present _ ih => exact .advance present (ih right)
  | skip present _ ih => exact .skip present (ih right)
  | markEnd _ ih => exact .markEnd (ih right)

def Skips (s t : σ) : Prop := ∃ n, Calls s (List.replicate n .skip) t

theorem Skips.refl (s : σ) : Skips s s := ⟨0,.nil⟩

theorem Skips.skip (present : (Cursor.lookahead s).isSome = true) (rest : Skips (Cursor.skip s) t) : Skips s t := by
  obtain ⟨n,calls⟩ := rest
  exact ⟨n + 1,.skip present calls⟩

theorem Skips.trans (left : Skips s m) (right : Skips m t) : Skips s t := by
  obtain ⟨a,first⟩ := left
  obtain ⟨b,second⟩ := right
  refine ⟨a + b,?_⟩
  rw [← List.replicate_append_replicate]
  exact first.append second

def taking : Nat → List Primitive
  | 0 => []
  | n+1 => .markEnd :: .advance :: taking n

theorem taking_last (n : Nat) : taking (n + 1) = taking n ++ [.markEnd,.advance] := by
  induction n with
  | zero => rfl
  | succ n ih =>
      calc
        taking (n + 2) = .markEnd :: .advance :: taking (n + 1) := rfl
        _ = .markEnd :: .advance :: (taking n ++ [.markEnd,.advance]) := by rw [ih]
        _ = taking (n + 1) ++ [.markEnd,.advance] := rfl

def passed (calls : List Primitive) : Nat := calls.countP (· != .markEnd)

theorem passed_taking (n : Nat) : passed (taking n) = n := by
  induction n with
  | zero => rfl
  | succ n ih => simpa [passed,taking] using ih

theorem passed_skips (n : Nat) : passed (List.replicate n .skip) = n := by
  simp [passed,List.countP_replicate]

theorem blockComment_skips (s : σ) : Skips s (blockComment s).cursor := by
  fun_induction blockComment s with
  | case1 s => exact .refl s
  | case2 s c found _ closes => exact .skip (by simp [found]) (.skip (by simp [closes.2]) (.refl _))
  | case3 s c found _ _ ih => exact .skip (by simp [found]) ih

theorem lineEnd_skips (s : σ) : Skips s (lineEnd s).cursor := by
  fun_induction lineEnd s with
  | case1 s => exact .refl s
  | case2 s => exact .refl s
  | case3 s => exact .refl s
  | case4 s c found _ _ _ _ ih => exact .skip (by simp [found]) ih
  | case5 s => exact .refl s

end

-- Text that a token holds as it stands: inside a template and between tags.
inductive Literal where
  | template
  | markup
  deriving DecidableEq

namespace Literal

def token : Literal → Token
  | .template => .template
  | .markup => .markup

def opens (cs : List Char) : Bool := cs.head? == some '$' && cs.tail.head? == some '{'

theorem opens_dollar {cs : List Char} (opened : opens cs = true) : cs.head? = some '$' := by
  simp only [opens,Bool.and_eq_true,beq_iff_eq] at opened
  exact opened.1

def stops : Literal → List Char → Bool
  | .template,cs => cs.head?.all (fun c => c == '\x60' || c == '\\') || opens cs
  | .markup,cs => cs.head?.all (fun c => c == '<' || c == '{')

theorem stops_nil (kind : Literal) : kind.stops [] = true := by cases kind <;> rfl

def run (kind : Literal) : List Char → Nat
  | [] => 0
  | c :: cs => if kind.stops (c :: cs) then 0 else kind.run cs + 1

theorem run_stopped {kind : Literal} {cs : List Char} (stopped : kind.stops cs = true) : kind.run cs = 0 := by
  cases cs with
  | nil => rfl
  | cons c cs => rw [run,if_pos stopped]

theorem run_passed {kind : Literal} {c : Char} {cs : List Char} (passed : kind.stops (c :: cs) = false) :
    kind.run (c :: cs) = kind.run cs + 1 := by
  rw [run,if_neg (by simp [passed])]

variable {σ : Type u} [Cursor σ] [TextCursor σ]

-- The end is staked where the text stops. In front of an interpolation the
-- cursor has looked past the dollar sign to know.
def leave (kind : Literal) (s : σ) : σ :=
  if kind = .template ∧ opens (ahead s) = true then Cursor.advance (Cursor.markEnd s) else Cursor.markEnd s

end Literal

section
variable {σ : Type u} [Cursor σ] [TextCursor σ] {s : σ}

theorem Calls.ahead_eq {t : σ} {calls : List Primitive} (made : Calls s calls t) : ahead t = (ahead s).drop (passed calls) := by
  induction made with
  | nil => rfl
  | advance _ _ ih => rw [ih,ahead_advance]; simp [passed]
  | skip _ _ ih => rw [ih,ahead_skip]; simp [passed]
  | markEnd _ ih => rw [ih,ahead_markEnd]; simp [passed]

theorem skipWhile_calls (passes : Char → Bool) (s : σ) :
    Calls s (List.replicate ((ahead s).takeWhile passes).length .skip) (skipWhile passes s) := by
  fun_induction skipWhile passes s with
  | case1 s ended =>
      rw [ahead_nil ended]
      exact .nil
  | case2 s c found _ passed ih =>
      obtain ⟨rest,text,_,after⟩ := ahead_cons found
      rw [text,List.takeWhile_cons_of_pos passed]
      rw [after] at ih
      exact .skip (by simp [found]) ih
  | case3 s c found _ stays =>
      obtain ⟨rest,text,_,_⟩ := ahead_cons found
      rw [text,List.takeWhile_cons_of_neg stays]
      exact .nil

theorem skipWhile_skips (passes : Char → Bool) (s : σ) : Skips s (skipWhile passes s) :=
  ⟨_,skipWhile_calls passes s⟩

theorem comment_skips {c : Char} (found : Cursor.lookahead s = some c) : Skips s (comment s).cursor := by
  have first : (Cursor.lookahead s).isSome = true := by simp [found]
  unfold comment
  split
  · rename_i second
    exact .skip first (.skip (by simp [second]) (skipWhile_skips _ _))
  · rename_i second
    exact .skip first (.skip (by simp [second]) (blockComment_skips _))
  · exact .skip first (.refl _)

theorem trivia_skips (s : σ) : Skips s (trivia s).cursor := by
  fun_induction trivia s with
  | case1 =>
      rename_i s _ slash _ after taken _ ih
      have passed := comment_skips slash
      rw [taken] at passed
      exact (skipWhile_skips _ s).trans (passed.trans ih)
  | case2 =>
      rename_i s _ slash _ stopped refused
      have passed := comment_skips slash
      rw [refused] at passed
      exact (skipWhile_skips _ s).trans passed
  | case3 =>
      rename_i s _ _
      exact skipWhile_skips _ s

theorem semicolon_skips (s : σ) : Skips (Cursor.markEnd s) (semicolon s).cursor := by
  have line := lineEnd_skips (Cursor.markEnd s)
  unfold semicolon
  cases outcome : lineEnd (Cursor.markEnd s) with
  | ends stopped => rw [outcome] at line; exact line
  | blocked stopped => rw [outcome] at line; exact line
  | breaks feed =>
      rw [outcome] at line
      have present : (Cursor.lookahead feed).isSome = true := by simp [lineEnd_breaks_feed outcome]
      have past := line.trans (.skip present (trivia_skips (Cursor.skip feed)))
      dsimp only
      cases broken : trivia (Cursor.skip feed) with
      | declined stopped => rw [broken] at past; exact past
      | accepted next =>
          rw [broken] at past
          dsimp only
          rw [Attempt.cursor_of]
          exact past

def Literal.Loops (kind : Literal) (loop : σ → Bool → Attempt σ) : Prop :=
  ∀ s content, loop s content =
    if kind.stops (ahead s) = true then .of content (kind.leave s) else loop (Cursor.advance (Cursor.markEnd s)) true

theorem template_loops : Literal.template.Loops (template (σ := σ)) := by
  intro s content
  cases found : Cursor.lookahead (Cursor.markEnd s) with
  | none =>
      have empty : ahead s = [] := by rw [← ahead_markEnd,ahead_nil found]
      rw [template_end found]
      simp [Literal.stops,Literal.leave,Literal.opens,empty]
  | some c =>
      obtain ⟨rest,text,after,_⟩ := ahead_cons found
      rw [ahead_markEnd] at text
      rw [template_some found,lookahead_eq,after,text]
      by_cases closes : c = '\x60' ∨ c = '\\'
      · have shut : c ≠ '$' := by rcases closes with rfl | rfl <;> decide
        simp [Literal.stops,Literal.leave,Literal.opens,text,closes,shut]
      · by_cases opened : c = '$' ∧ rest.head? = some '{'
        · simp [Literal.stops,Literal.leave,Literal.opens,text,opened]
        · simp [Literal.stops,Literal.opens,closes,opened]

theorem markup_loops : Literal.markup.Loops (markup (σ := σ)) := by
  intro s content
  cases found : Cursor.lookahead (Cursor.markEnd s) with
  | none =>
      have empty : ahead s = [] := by rw [← ahead_markEnd,ahead_nil found]
      rw [markup_end found]
      simp [Literal.stops,Literal.leave,empty]
  | some c =>
      obtain ⟨rest,text,_,_⟩ := ahead_cons found
      rw [ahead_markEnd] at text
      rw [markup_some found,text]
      simp [Literal.stops,Literal.leave]

theorem Literal.Loops.leaves {kind : Literal} {loop : σ → Bool → Attempt σ} (loops : kind.Loops loop)
    (content : Bool) : ∃ stopped, Calls s (taking (kind.run (ahead s))) stopped ∧
      loop s content = .of (content || decide (0 < kind.run (ahead s))) (kind.leave stopped) := by
  induction text : ahead s generalizing s content with
  | nil =>
      refine ⟨s,.nil,?_⟩
      rw [loops,text,if_pos kind.stops_nil]
      simp [run]
  | cons c rest ih =>
      cases found : kind.stops (c :: rest) with
      | true =>
          refine ⟨s,?_,?_⟩
          · rw [run_stopped found]; exact .nil
          · rw [loops,text,if_pos found,run_stopped found]
            simp
      | false =>
          have present : (Cursor.lookahead (Cursor.markEnd s)).isSome = true := by
            simp [lookahead_eq,ahead_markEnd,text]
          have after : ahead (Cursor.advance (Cursor.markEnd s)) = rest := by
            rw [ahead_advance,ahead_markEnd,text,List.tail_cons]
          obtain ⟨stopped,calls,outcome⟩ := ih true after
          refine ⟨stopped,?_,?_⟩
          · rw [run_passed found]
            exact .markEnd (.advance present calls)
          · rw [loops,text,if_neg (by simp [found]),outcome,run_passed found]
            simp

theorem literal_leaves (kind : Literal) (s : σ) : ∃ stopped,
    Calls s (taking (kind.run (ahead s))) stopped ∧
    attempt kind.token s = .of (decide (0 < kind.run (ahead s))) (kind.leave stopped) := by
  cases kind with
  | template => exact template_loops.leaves false
  | markup => exact markup_loops.leaves false

theorem literal_alone (kind : Literal) (s : σ) : ∃ stopped,
    Calls s (taking (kind.run (ahead s))) stopped ∧
    (scan (.single kind.token) s).token = (if 0 < kind.run (ahead s) then some kind.token else none) ∧
    (scan (.single kind.token) s).cursor = (if 0 < kind.run (ahead s) then kind.leave stopped else s) := by
  obtain ⟨stopped,made,outcome⟩ := literal_leaves kind s
  obtain ⟨token,cursor⟩ := Dispatch.alone_outcome kind.token s
  rw [outcome,Attempt.isAccepted_of] at token cursor
  rw [Attempt.cursor_of] at cursor
  simp only [decide_eq_true_eq] at token cursor
  exact ⟨stopped,made,token,cursor⟩

def Literal.ending (kind : Literal) (cs : List Char) : List Primitive :=
  if kind = .template ∧ opens cs = true then [.markEnd,.advance] else [.markEnd]

theorem Literal.leave_calls (kind : Literal) (s : σ) : Calls s (kind.ending (ahead s)) (kind.leave s) := by
  unfold ending leave
  split
  · rename_i opened
    exact .markEnd (.advance (by simp [lookahead_eq,ahead_markEnd,opens_dollar opened.2]) .nil)
  · exact .markEnd .nil

-- How a token comes to be accepted, by the cursor its end was staked on.
inductive Took (s : σ) : Token → σ → Prop where
  | semicolon : Skips (Cursor.markEnd s) t → Took s .semicolon t
  | literal (kind : Literal) : 0 < kind.run (ahead s) → Calls s (taking (kind.run (ahead s))) stopped →
      Took s kind.token (kind.leave stopped)
  | ternary : Calls s (List.replicate ((ahead s).takeWhile Character.isSpace).length .skip) mark →
      Cursor.lookahead mark = some '?' → Took s .ternary (Cursor.markEnd (Cursor.advance mark))

theorem literal_took (kind : Literal) {after : σ} (accepted : attempt kind.token s = .accepted after) :
    Took s kind.token after := by
  obtain ⟨stopped,calls,outcome⟩ := literal_leaves kind s
  rw [accepted] at outcome
  by_cases some : 0 < kind.run (ahead s)
  · simp only [some,decide_true,Attempt.of,if_true] at outcome
    cases outcome
    exact .literal kind some calls
  · simp [some,Attempt.of] at outcome

theorem accepted_took {token : Token} {after : σ} (accepted : attempt token s = .accepted after) :
    Took s token after := by
  cases token with
  | template => exact literal_took .template accepted
  | markup => exact literal_took .markup accepted
  | semicolon =>
      have skipped := semicolon_skips s
      rw [show semicolon s = .accepted after from accepted] at skipped
      exact .semicolon skipped
  | ternary =>
      have calls := skipWhile_calls Character.isSpace s
      change ternary s = .accepted after at accepted
      unfold ternary at accepted
      dsimp only at accepted
      split at accepted
      · rename_i question
        split at accepted
        · cases accepted
        · unfold Attempt.of at accepted
          split at accepted
          · cases accepted
            exact .ternary calls question
          · cases accepted
      · cases accepted

theorem attempt_calls (token : Token) (s : σ) : ∃ calls, Calls s calls (attempt token s).cursor := by
  have literal : ∀ kind : Literal, ∃ calls, Calls s calls (attempt kind.token s).cursor := by
    intro kind
    obtain ⟨stopped,calls,outcome⟩ := literal_leaves kind s
    rw [outcome,Attempt.cursor_of]
    exact ⟨_,calls.append (kind.leave_calls stopped)⟩
  cases token with
  | template => exact literal .template
  | markup => exact literal .markup
  | semicolon =>
      obtain ⟨n,calls⟩ := semicolon_skips s
      exact ⟨_,.markEnd calls⟩
  | ternary =>
      have calls := skipWhile_calls Character.isSpace s
      change ∃ calls, Calls s calls (ternary s).cursor
      unfold ternary
      dsimp only
      split
      · rename_i question
        have present : (Cursor.lookahead (skipWhile Character.isSpace s)).isSome = true := by simp [question]
        split
        · exact ⟨_,calls.append (.advance present .nil)⟩
        · rw [Attempt.cursor_of]
          exact ⟨_,calls.append (.advance present (.markEnd .nil))⟩
      · exact ⟨_,calls⟩

omit [TextCursor σ] in
theorem scan_accepted {valid : TokenSet} {token : Token} (taken : (scan valid s).token = some token) :
    attempt token s = .accepted (scan valid s).cursor := by
  change (Scan.dispatch valid s Scan.order).token = some token at taken
  change _ = Attempt.accepted (Scan.dispatch valid s Scan.order).cursor
  rcases Dispatch.dispatch_cases valid s with ⟨_,ended⟩ | ⟨_,_,ended⟩ | ⟨first,_,found,ended⟩
  · rw [ended] at taken; cases taken
  · rw [ended] at taken; cases taken
  · rw [ended] at taken ⊢
    cases taken
    have won : Dispatch.wins token s = true := by
      have both := List.find?_some found
      simp only [Bool.and_eq_true] at both
      exact both.2
    rw [Dispatch.wins_accepted] at won
    have kept := (Dispatch.alone_outcome token s).2
    rw [if_pos won] at kept
    cases outcome : attempt token s with
    | declined stopped => rw [outcome] at won; cases won
    | accepted after => rw [outcome] at kept; exact congrArg Attempt.accepted kept.symm

end

end ContextScan
