import ContextScan.Proofs.Primitives

namespace ContextScan
open TextCursor Recognizer

namespace Recorder
variable {s t : Recorder} {calls : List Primitive}

theorem log_calls (made : Calls s calls t) : t.log = s.log ++ calls := by
  induction made with
  | nil => simp
  | advance _ _ ih => rw [ih]; simp [log,Cursor.advance,pass]
  | skip _ _ ih => rw [ih]; simp [log,Cursor.skip,pass]
  | markEnd _ ih => rw [ih]; simp [log,Cursor.markEnd,markEnd]

theorem pos_calls (made : Calls s calls t) : t.pos = s.pos + passed calls := by
  induction made with
  | nil => rfl
  | advance _ _ ih => rw [ih]; simp [passed,Cursor.advance,pass]; omega
  | skip _ _ ih => rw [ih]; simp [passed,Cursor.skip,pass]; omega
  | markEnd _ ih => rw [ih]; simp [passed,Cursor.markEnd,markEnd]

theorem marked_skips (skipped : Skips s t) : t.marked = s.marked := by
  obtain ⟨n,made⟩ := skipped
  induction n generalizing s with
  | zero => cases made; rfl
  | succ n ih =>
      cases made with
      | skip _ rest =>
          have later := ih rest
          exact later

-- What a token leaves in the record, and how far from where the scan began its
-- end is. Literal text ends where it first could; trivia is in front of a question
-- mark and behind a terminator's end, never inside a token.
inductive Leaves (cs : List Char) : Token → List Primitive → Nat → Prop where
  | semicolon (n : Nat) : Leaves cs .semicolon (.markEnd :: List.replicate n .skip) 0
  | template : 0 < Literal.template.run cs → Literal.opens (cs.drop (Literal.template.run cs)) = false →
      Leaves cs .template (taking (Literal.template.run cs) ++ [.markEnd]) (Literal.template.run cs)
  | interpolated : 0 < Literal.template.run cs → Literal.opens (cs.drop (Literal.template.run cs)) = true →
      Leaves cs .template (taking (Literal.template.run cs + 1)) (Literal.template.run cs)
  | ternary : (cs.drop (cs.takeWhile Character.isSpace).length).head? = some '?' →
      Leaves cs .ternary (List.replicate (cs.takeWhile Character.isSpace).length .skip ++ [.advance,.markEnd])
        ((cs.takeWhile Character.isSpace).length + 1)
  | markup : 0 < Literal.markup.run cs →
      Leaves cs .markup (taking (Literal.markup.run cs) ++ [.markEnd]) (Literal.markup.run cs)

theorem taking_skipless (n : Nat) : Primitive.skip ∉ taking n := by
  induction n with
  | zero => exact List.not_mem_nil
  | succ n ih => simpa [taking] using ih

theorem skips_contentless (n : Nat) : ¬[Primitive.advance,.skip].Sublist (List.replicate n .skip ++ [.advance,.markEnd]) := by
  induction n with
  | zero => decide
  | succ n ih =>
      intro within
      rw [List.replicate_succ,List.cons_append] at within
      cases within with
      | cons _ later => exact ih later

theorem Leaves.content_last {cs : List Char} {token : Token} {n : Nat} (leaves : Leaves cs token calls n) :
    ¬[Primitive.advance,.skip].Sublist calls := by
  intro within
  have advanced : Primitive.advance ∈ calls := within.subset (by simp)
  have skipped : Primitive.skip ∈ calls := within.subset (by simp)
  cases leaves with
  | semicolon n => simp at advanced
  | template => simp [taking_skipless] at skipped
  | interpolated => exact taking_skipless _ skipped
  | ternary => exact skips_contentless _ within
  | markup => simp [taking_skipless] at skipped

theorem literal_record {kind : Literal} {stopped : Recorder} (filled : 0 < kind.run s.ahead)
    (made : Calls s (taking (kind.run s.ahead)) stopped) : ∃ calls n,
      (kind.leave stopped).log = s.log ++ calls ∧ Leaves s.ahead kind.token calls n ∧
      (kind.leave stopped).marked = some (s.pos + n) := by
  have text : stopped.ahead = s.ahead.drop (kind.run s.ahead) := by
    have same := made.ahead_eq
    rwa [passed_taking] at same
  have position : stopped.pos = s.pos + kind.run s.ahead := by rw [pos_calls made,passed_taking]
  have written := log_calls (made.append (kind.leave_calls stopped))
  have marked : (kind.leave stopped).marked = some stopped.pos := by
    unfold Literal.leave
    split <;> rfl
  refine ⟨_,kind.run s.ahead,written,?_,by rw [marked,position]⟩
  change Leaves s.ahead kind.token (taking (kind.run s.ahead) ++ kind.ending stopped.ahead) (kind.run s.ahead)
  rw [text]
  cases kind with
  | markup => exact .markup filled
  | template =>
      cases opened : Literal.opens (s.ahead.drop (Literal.template.run s.ahead)) with
      | false => simpa [Literal.ending,Literal.token,opened] using Leaves.template filled opened
      | true => simpa [Literal.ending,Literal.token,opened,taking_last] using Leaves.interpolated filled opened

theorem took_record {token : Token} (took : Took s token t) : ∃ calls n,
    t.log = s.log ++ calls ∧ Leaves s.ahead token calls n ∧ t.marked = some (s.pos + n) := by
  cases took with
  | semicolon skipped =>
      have marked := marked_skips skipped
      obtain ⟨n,made⟩ := skipped
      exact ⟨_,0,log_calls (.markEnd made),.semicolon n,marked⟩
  | literal kind filled made => exact literal_record filled made
  | @ternary mark made question =>
      have text := made.ahead_eq
      have position := pos_calls made
      rw [passed_skips] at text position
      have whole := made.append (.advance (by simp [question]) (.markEnd .nil))
      have front : mark.ahead.head? = some '?' := question
      refine ⟨_,_,log_calls whole,.ternary (by rw [← front]; exact congrArg List.head? text.symm),?_⟩
      change some (mark.pos + 1) = _
      rw [position]
      rfl

-- No trial, accepted or not, runs past the end of input. An accepted one has
-- staked the token's true end last and has skipped nothing behind content.
theorem scan_disciplined (s : Recorder) (valid : TokenSet) :
    (∀ token, ∃ calls, Calls s calls (attempt token s).cursor ∧
      (attempt token s).cursor.log = s.log ++ calls) ∧
    (∀ token, (scan valid s).token = some token → ∃ calls n,
      (scan valid s).cursor.log = s.log ++ calls ∧ Leaves s.ahead token calls n ∧
      (scan valid s).cursor.marked = some (s.pos + n) ∧ ¬[Primitive.advance,.skip].Sublist calls) := by
  refine ⟨?_,?_⟩
  · intro token
    obtain ⟨calls,made⟩ := attempt_calls token s
    exact ⟨calls,made,log_calls made⟩
  · intro token taken
    obtain ⟨calls,n,written,leaves,marked⟩ := took_record (accepted_took (scan_accepted taken))
    exact ⟨calls,n,written,leaves,marked,leaves.content_last⟩

theorem scan_disciplined_interpolated :
    (scan ⟨2⟩ (Recorder.startAt ['a','$','{'] 0 [])).token = some .template ∧
    (scan ⟨2⟩ (Recorder.startAt ['a','$','{'] 0 [])).cursor.log = [.markEnd,.advance,.markEnd,.advance] ∧
    ∃ n, Leaves ['a','$','{'] .template [.markEnd,.advance,.markEnd,.advance] n ∧
      (scan ⟨2⟩ (Recorder.startAt ['a','$','{'] 0 [])).cursor.marked = some (0 + n) := by
  have taken : (scan ⟨2⟩ (Recorder.startAt ['a','$','{'] 0 [])).token = some .template := by decide +kernel
  have log : (scan ⟨2⟩ (Recorder.startAt ['a','$','{'] 0 [])).cursor.log =
      [.markEnd,.advance,.markEnd,.advance] := by decide +kernel
  obtain ⟨calls,n,written,leaves,marked,_⟩ := (scan_disciplined (Recorder.startAt ['a','$','{'] 0 []) ⟨2⟩).2 _ taken
  cases log.symm.trans written
  exact ⟨taken,log,n,leaves,marked⟩

end Recorder

end ContextScan
