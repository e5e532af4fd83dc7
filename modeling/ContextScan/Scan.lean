import ContextScan.Token
import ContextScan.Trivia

namespace ContextScan

universe u

namespace Recognizer
open Cursor Trivia

variable {σ : Type u} [Cursor σ]

inductive LineEnd (σ : Type u) where
  | ends (cursor : σ)
  | breaks (cursor : σ)
  | blocked (cursor : σ)

-- A region start is looked for before the character at it, so it wins over a line
-- feed and over text on the same line.
def lineEnd (s : σ) : LineEnd σ :=
  match found : lookahead s with
  | none => .ends s
  | some c =>
      have _ := skip_lt_of_some found
      if c = '}' ∨ atRegionStart s = true then .ends s
      else if c = '\n' then .breaks s
      else if Character.isSpace c then lineEnd (skip s)
      else .blocked s
termination_by remaining s

theorem lineEnd_end {s : σ} (ended : lookahead s = none) : lineEnd s = .ends s := by
  rw [lineEnd]
  split
  · rfl
  · rename_i c found; simp [ended] at found

theorem lineEnd_some {s : σ} {c : Char} (found : lookahead s = some c) : lineEnd s =
    if c = '}' ∨ atRegionStart s = true then .ends s
    else if c = '\n' then .breaks s
    else if Character.isSpace c then lineEnd (skip s)
    else .blocked s := by
  rw [lineEnd]
  split
  · rename_i ended; simp [ended] at found
  · rename_i d other
    cases other.symm.trans found
    rfl

theorem lineEnd_breaks_feed {s feed : σ} (broken : lineEnd s = .breaks feed) : lookahead feed = some '\n' := by
  fun_induction lineEnd s with
  | case1 => cases broken
  | case2 => cases broken
  | case3 s first found => cases broken; exact found
  | case4 s c found first _ _ _ ih => exact ih broken
  | case5 => cases broken

-- The end is staked before anything is passed, so trivia never belongs to the token.
def semicolon (s : σ) : Attempt σ :=
  match lineEnd (markEnd s) with
  | .ends stopped => .accepted stopped
  | .blocked stopped => .declined stopped
  | .breaks feed =>
      match trivia (skip feed) with
      | .declined stopped => .declined stopped
      | .accepted next => .of (!(lookahead next).any Character.continuesStatement) next

-- The end is staked in front of each dollar sign before it is known whether a brace
-- follows it.
def template (s : σ) (content : Bool) : Attempt σ :=
  match found : lookahead (markEnd s) with
  | none => .of content (markEnd s)
  | some c =>
      have _ := advance_marked_lt found
      if c = '\x60' ∨ c = '\\' then .of content (markEnd s)
      else if c = '$' ∧ lookahead (advance (markEnd s)) = some '{' then .of content (advance (markEnd s))
      else template (advance (markEnd s)) true
termination_by remaining s

theorem template_end {s : σ} {content : Bool} (ended : lookahead (markEnd s) = none) :
    template s content = .of content (markEnd s) := by
  rw [template]
  split
  · rfl
  · rename_i c found; simp [ended] at found

theorem template_some {s : σ} {content : Bool} {c : Char} (found : lookahead (markEnd s) = some c) :
    template s content =
      if c = '\x60' ∨ c = '\\' then .of content (markEnd s)
      else if c = '$' ∧ lookahead (advance (markEnd s)) = some '{' then .of content (advance (markEnd s))
      else template (advance (markEnd s)) true := by
  rw [template]
  split
  · rename_i ended; simp [ended] at found
  · rename_i d other
    cases other.symm.trans found
    rfl

def ternary (s : σ) : Attempt σ :=
  let mark := skipWhile Character.isSpace s
  if lookahead mark = some '?' then
    let past := advance mark
    if lookahead past = some '?' then .declined past
    else .of (lookahead (markEnd past) != some '.') (markEnd past)
  else .declined mark

def markup (s : σ) (content : Bool) : Attempt σ :=
  match found : lookahead (markEnd s) with
  | none => .of content (markEnd s)
  | some c =>
      have _ := advance_marked_lt found
      if c = '<' ∨ c = '{' then .of content (markEnd s)
      else markup (advance (markEnd s)) true
termination_by remaining s

theorem markup_end {s : σ} {content : Bool} (ended : lookahead (markEnd s) = none) :
    markup s content = .of content (markEnd s) := by
  rw [markup]
  split
  · rfl
  · rename_i c found; simp [ended] at found

theorem markup_some {s : σ} {content : Bool} {c : Char} (found : lookahead (markEnd s) = some c) :
    markup s content =
      if c = '<' ∨ c = '{' then .of content (markEnd s)
      else markup (advance (markEnd s)) true := by
  rw [markup]
  split
  · rename_i ended; simp [ended] at found
  · rename_i d other
    cases other.symm.trans found
    rfl

def attempt : Token → σ → Attempt σ
  | .semicolon,s => semicolon s
  | .template,s => template s false
  | .ternary,s => ternary s
  | .markup,s => markup s false

end Recognizer

structure Scan (σ : Type u) where
  token : Option Token
  cursor : σ
  events : List Event

namespace Scan
open Cursor Recognizer
variable {σ : Type u} [Cursor σ]

def order : List Token := [.template,.semicolon,.ternary,.markup]

-- A statement that a question mark keeps open, where the grammar cannot take a
-- conditional: no terminator, and nothing else may claim the position either.
def suppresses (valid : TokenSet) (t : Token) (stopped : σ) : Bool :=
  t == .semicolon && lookahead stopped == some '?' && !valid.allows .ternary

def dispatch (valid : TokenSet) (s : σ) : List Token → Scan σ
  | [] => ⟨none,s,[]⟩
  | t :: rest =>
      if valid.allows t then
        match attempt t s with
        | .accepted after => ⟨some t,after,[]⟩
        | .declined stopped =>
            if suppresses valid t stopped then ⟨none,s,[.suppressed]⟩ else dispatch valid s rest
      else dispatch valid s rest

theorem dispatch_refused {valid : TokenSet} {t : Token} {s : σ} {rest : List Token}
    (refused : valid.allows t = false) : dispatch valid s (t :: rest) = dispatch valid s rest := by
  rw [dispatch,if_neg (by simp [refused])]

theorem dispatch_accepted {valid : TokenSet} {t : Token} {s after : σ} {rest : List Token}
    (allowed : valid.allows t = true) (taken : attempt t s = .accepted after) :
    dispatch valid s (t :: rest) = ⟨some t,after,[]⟩ := by
  rw [dispatch,if_pos allowed,taken]

theorem dispatch_declined {valid : TokenSet} {t : Token} {s stopped : σ} {rest : List Token}
    (allowed : valid.allows t = true) (declined : attempt t s = .declined stopped) :
    dispatch valid s (t :: rest) =
      if suppresses valid t stopped then ⟨none,s,[.suppressed]⟩ else dispatch valid s rest := by
  rw [dispatch,if_pos allowed,declined]

end Scan

def scan {σ : Type u} [Cursor σ] (valid : TokenSet) (s : σ) : Scan σ :=
  let result := Scan.dispatch valid s Scan.order
  {result with events := result.events ++ [.scanned valid result.token]}

end ContextScan
