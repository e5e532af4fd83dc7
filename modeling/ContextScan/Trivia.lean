import ContextScan.Text

namespace ContextScan

universe u

-- The input is finite, but no law says what either step does at the end of it.
class Cursor (σ : Type u) where
  lookahead : σ → Option Char
  advance : σ → σ
  skip : σ → σ
  markEnd : σ → σ
  atRegionStart : σ → Bool
  remaining : σ → Nat
  advance_lt : ∀ s, (lookahead s).isSome = true → remaining (advance s) < remaining s
  skip_lt : ∀ s, (lookahead s).isSome = true → remaining (skip s) < remaining s
  markEnd_le : ∀ s, remaining (markEnd s) ≤ remaining s

namespace Cursor
variable {σ : Type u} [Cursor σ]

def isEof (s : σ) : Bool := (lookahead s).isNone

theorem advance_lt_of_some {s : σ} {c : Char} (found : lookahead s = some c) :
    remaining (advance s) < remaining s := advance_lt s (by simp [found])

theorem skip_lt_of_some {s : σ} {c : Char} (found : lookahead s = some c) :
    remaining (skip s) < remaining s := skip_lt s (by simp [found])

theorem advance_marked_lt {s : σ} {c : Char} (found : lookahead (markEnd s) = some c) :
    remaining (advance (markEnd s)) < remaining s :=
  Nat.lt_of_lt_of_le (advance_lt_of_some found) (markEnd_le s)

end Cursor

open Cursor

-- A declined trial still shows where it stopped; only an accepted one may replace
-- the caller's cursor.
inductive Attempt (σ : Type u) where
  | accepted (cursor : σ)
  | declined (cursor : σ)

namespace Attempt
variable {σ : Type u}

def cursor : Attempt σ → σ
  | .accepted s => s
  | .declined s => s

def isAccepted : Attempt σ → Bool
  | .accepted _ => true
  | .declined _ => false

def of (accepted : Bool) (s : σ) : Attempt σ := if accepted then .accepted s else .declined s

theorem cursor_of (accepted : Bool) (s : σ) : (of accepted s).cursor = s := by
  cases accepted <;> rfl

theorem isAccepted_of (accepted : Bool) (s : σ) : (of accepted s).isAccepted = accepted := by
  cases accepted <;> rfl

end Attempt

namespace Trivia
variable {σ : Type u} [Cursor σ]

def skipWhile (passes : Char → Bool) (s : σ) : σ :=
  match found : lookahead s with
  | none => s
  | some c =>
      have _ := skip_lt_of_some found
      if passes c then skipWhile passes (skip s) else s
termination_by remaining s

theorem skipWhile_le (passes : Char → Bool) (s : σ) : remaining (skipWhile passes s) ≤ remaining s := by
  fun_induction skipWhile passes s with
  | case1 => exact Nat.le_refl _
  | case2 s c found first _ ih => exact Nat.le_trans ih (Nat.le_of_lt first)
  | case3 => exact Nat.le_refl _

theorem skipWhile_stop {passes : Char → Bool} {s : σ} (stopped : (lookahead s).any passes = false) :
    skipWhile passes s = s := by
  rw [skipWhile]
  split
  · rfl
  · rename_i c found
    have stays : passes c = false := by simpa [found] using stopped
    rw [if_neg (by simp [stays])]

theorem skipWhile_pass {passes : Char → Bool} {s : σ} {c : Char} (found : lookahead s = some c)
    (passed : passes c = true) : skipWhile passes s = skipWhile passes (skip s) := by
  rw [skipWhile]
  split
  · rename_i ended; simp [ended] at found
  · rename_i d other
    cases other.symm.trans found
    rw [if_pos passed]

def blockComment (s : σ) : Attempt σ :=
  match found : lookahead s with
  | none => .declined s
  | some c =>
      have _ := skip_lt_of_some found
      if c = '*' ∧ lookahead (skip s) = some '/' then .accepted (skip (skip s)) else blockComment (skip s)
termination_by remaining s

theorem blockComment_le (s : σ) : remaining (blockComment s).cursor ≤ remaining s := by
  fun_induction blockComment s with
  | case1 => exact Nat.le_refl _
  | case2 s c found first closes =>
      exact Nat.le_of_lt (Nat.lt_trans (skip_lt_of_some closes.2) first)
  | case3 s c found first _ ih => exact Nat.le_trans ih (Nat.le_of_lt first)

theorem blockComment_end {s : σ} (ended : lookahead s = none) : blockComment s = .declined s := by
  rw [blockComment]
  split
  · rfl
  · rename_i c found; simp [ended] at found

theorem blockComment_close {s : σ} (star : lookahead s = some '*') (slash : lookahead (skip s) = some '/') :
    blockComment s = .accepted (skip (skip s)) := by
  rw [blockComment]
  split
  · rename_i ended; simp [ended] at star
  · rename_i c found
    cases found.symm.trans star
    rw [if_pos ⟨rfl,slash⟩]

theorem blockComment_pass {s : σ} {c : Char} (found : lookahead s = some c)
    (opened : ¬(c = '*' ∧ lookahead (skip s) = some '/')) : blockComment s = blockComment (skip s) := by
  rw [blockComment]
  split
  · rename_i ended; simp [ended] at found
  · rename_i d other
    cases other.symm.trans found
    rw [if_neg opened]

def comment (s : σ) : Attempt σ :=
  match lookahead (skip s) with
  | some '/' => .accepted (skipWhile (· != '\n') (skip (skip s)))
  | some '*' => blockComment (skip (skip s))
  | _ => .declined (skip s)

theorem comment_lt {s : σ} {c : Char} (found : lookahead s = some c) :
    remaining (comment s).cursor < remaining s := by
  have first := skip_lt_of_some found
  unfold comment
  split
  · rename_i second
    exact Nat.lt_of_le_of_lt (skipWhile_le _ _) (Nat.lt_trans (skip_lt_of_some second) first)
  · rename_i second
    exact Nat.lt_of_le_of_lt (blockComment_le _) (Nat.lt_trans (skip_lt_of_some second) first)
  · exact first

-- Declined just after a slash that opens no comment, and at the end of input inside
-- a block comment.
def trivia (s : σ) : Attempt σ :=
  let solid := skipWhile Character.isSpace s
  match slash : lookahead solid with
  | some '/' =>
      have smaller := Nat.lt_of_lt_of_le (comment_lt slash) (skipWhile_le _ s)
      match taken : comment solid with
      | .accepted after =>
          have _ : remaining after < remaining s := by rw [taken] at smaller; exact smaller
          trivia after
      | .declined stopped => .declined stopped
  | _ => .accepted solid
termination_by remaining s

theorem trivia_solid {s : σ} (solid : lookahead (skipWhile Character.isSpace s) ≠ some '/') :
    trivia s = .accepted (skipWhile Character.isSpace s) := by
  rw [trivia]
  split
  · rename_i slash; exact absurd slash solid
  · rfl

theorem trivia_end {s : σ} (ended : lookahead s = none) : trivia s = .accepted s := by
  have still : skipWhile Character.isSpace s = s := skipWhile_stop (by simp [ended])
  rw [trivia_solid (by simp [still,ended]),still]

theorem trivia_comment {s after : σ} (slash : lookahead (skipWhile Character.isSpace s) = some '/')
    (taken : comment (skipWhile Character.isSpace s) = .accepted after) : trivia s = trivia after := by
  rw [trivia]
  split
  · split
    · rename_i next passed; cases passed.symm.trans taken; rfl
    · rename_i stopped refused; cases refused.symm.trans taken
  · rename_i other; exact absurd slash other

theorem trivia_declined {s stopped : σ} (slash : lookahead (skipWhile Character.isSpace s) = some '/')
    (refused : comment (skipWhile Character.isSpace s) = .declined stopped) : trivia s = .declined stopped := by
  rw [trivia]
  split
  · split
    · rename_i next passed; cases passed.symm.trans refused
    · rename_i other again; cases again.symm.trans refused; rfl
  · rename_i other; exact absurd slash other

end Trivia
end ContextScan
