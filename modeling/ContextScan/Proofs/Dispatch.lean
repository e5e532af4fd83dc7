import ContextScan.Recorder
import ContextScan.Scan

namespace ContextScan.TokenSet

theorem allows_single (t u : Token) : (single t).allows u = decide (u = t) := by
  cases t <;> cases u <;> decide

theorem single_low (t : Token) : (single t).bits &&& known.bits = (single t).bits := by
  cases t <;> decide

theorem allows_low {a b : TokenSet} (same : a.bits &&& known.bits = b.bits &&& known.bits) (t : Token) :
    a.allows t = b.allows t := by
  have low : ∀ c : TokenSet, c.bits &&& (single t).bits = (c.bits &&& known.bits) &&& (single t).bits := by
    intro c
    rw [UInt8.and_assoc,UInt8.and_comm known.bits,single_low]
  simp only [allows,includes,low a,low b,same]

end ContextScan.TokenSet

namespace ContextScan.Dispatch
open Recognizer Scan

universe u
variable {σ : Type u} [Cursor σ]

def alone (t : Token) (s : σ) : Scan σ := scan (TokenSet.single t) s

def wins (t : Token) (s : σ) : Bool := (alone t s).token == some t

-- The terminator is declined, and its own trial stopped before a question mark.
def questioned (s : σ) : Bool :=
  match attempt .semicolon s with
  | .accepted _ => false
  | .declined stopped => Cursor.lookahead stopped == some '?'

def suppressed (valid : TokenSet) (s : σ) : Bool :=
  !(valid.allows .template && wins .template s) && valid.allows .semicolon && questioned s &&
    !valid.allows .ternary

theorem dispatch_cons (valid : TokenSet) (t : Token) (s : σ) (rest : List Token) :
    dispatch valid s (t :: rest) =
      if valid.allows t = true ∧ (attempt t s).isAccepted = true then ⟨some t,(attempt t s).cursor,[]⟩
      else if valid.allows t = true ∧ suppresses valid t (attempt t s).cursor = true then ⟨none,s,[.suppressed]⟩
      else dispatch valid s rest := by
  cases allowed : valid.allows t with
  | false => simp [dispatch_refused allowed]
  | true =>
      cases outcome : attempt t s with
      | accepted after => simp [dispatch_accepted allowed outcome,Attempt.isAccepted,Attempt.cursor]
      | declined stopped => simp [dispatch_declined allowed outcome,Attempt.isAccepted,Attempt.cursor]

def trials (valid : TokenSet) (s : σ) : List Token → List (Token × Attempt σ)
  | [] => []
  | t :: rest =>
      if valid.allows t = true then
        (t,attempt t s) ::
          if (attempt t s).isAccepted = true ∨ suppresses valid t (attempt t s).cursor = true then []
          else trials valid s rest
      else trials valid s rest

-- Only the last trial is in the answer. A declined one leaves the caller's cursor.
def answer (valid : TokenSet) (s : σ) (tried : List (Token × Attempt σ)) : Scan σ :=
  match tried.getLast? with
  | some (t,.accepted after) => ⟨some t,after,[]⟩
  | some (t,.declined stopped) => ⟨none,s,if suppresses valid t stopped = true then [.suppressed] else []⟩
  | none => ⟨none,s,[]⟩

theorem dispatch_trials (valid : TokenSet) (s : σ) (order : List Token) :
    dispatch valid s order = answer valid s (trials valid s order) := by
  induction order with
  | nil => rfl
  | cons t rest ih =>
      rw [dispatch_cons,trials]
      cases allowed : valid.allows t with
      | false => simpa using ih
      | true =>
          cases outcome : attempt t s with
          | accepted after => simp [Attempt.isAccepted,Attempt.cursor,answer]
          | declined stopped =>
              cases ends : suppresses valid t stopped with
              | true => simp [Attempt.isAccepted,Attempt.cursor,answer,ends]
              | false =>
                  rw [ih]
                  cases left : trials valid s rest with
                  | nil => simp [Attempt.isAccepted,Attempt.cursor,answer,ends]
                  | cons first later => simp [Attempt.isAccepted,Attempt.cursor,answer,ends]

theorem trials_attempt {valid : TokenSet} {s : σ} {order : List Token} {t : Token} {outcome : Attempt σ}
    (tried : (t,outcome) ∈ trials valid s order) : t ∈ order ∧ valid.allows t = true ∧ outcome = attempt t s := by
  induction order with
  | nil => cases tried
  | cons u rest ih =>
      rw [trials] at tried
      split at tried
      · rename_i allowed
        rcases List.mem_cons.mp tried with same | later
        · cases same
          exact ⟨List.mem_cons_self,allowed,rfl⟩
        · split at later
          · cases later
          · obtain ⟨member,rest⟩ := ih later
            exact ⟨List.mem_cons_of_mem _ member,rest⟩
      · obtain ⟨member,rest⟩ := ih tried
        exact ⟨List.mem_cons_of_mem _ member,rest⟩

theorem dispatch_congr {a b : TokenSet} (same : ∀ t, a.allows t = b.allows t) (s : σ) (order : List Token) :
    dispatch a s order = dispatch b s order := by
  induction order with
  | nil => rfl
  | cons t rest ih =>
      have ends : suppresses a t (attempt t s).cursor = suppresses b t (attempt t s).cursor := by
        simp only [suppresses,same]
      rw [dispatch_cons,dispatch_cons,ih,same,ends]

theorem suppresses_semicolon {valid : TokenSet} {t : Token} {stopped : σ}
    (ends : suppresses valid t stopped = true) : t = .semicolon := by
  simp only [suppresses,Bool.and_eq_true,beq_iff_eq] at ends
  exact ends.1.1

theorem dispatch_first {valid : TokenSet} {s : σ} {order : List Token}
    (goes : ∀ t ∈ order, ¬(valid.allows t = true ∧ (attempt t s).isAccepted = false ∧
      suppresses valid t (attempt t s).cursor = true)) :
    dispatch valid s order =
      match order.find? (fun t => valid.allows t && (attempt t s).isAccepted) with
      | some t => ⟨some t,(attempt t s).cursor,[]⟩
      | none => ⟨none,s,[]⟩ := by
  induction order with
  | nil => rfl
  | cons t rest ih =>
      have head := goes t (by simp)
      have tail := ih (fun u member => goes u (List.mem_cons_of_mem _ member))
      rw [dispatch_cons,tail]
      by_cases taken : valid.allows t = true ∧ (attempt t s).isAccepted = true
      · rw [if_pos taken,List.find?_cons_of_pos (by simpa using taken)]
      · have passed : ¬(valid.allows t = true ∧ suppresses valid t (attempt t s).cursor = true) := by
          rintro ⟨allowed,ends⟩
          have declined : (attempt t s).isAccepted = false := by simpa [allowed] using taken
          exact head ⟨allowed,declined,ends⟩
        rw [if_neg taken,if_neg passed,List.find?_cons_of_neg (by simpa using taken)]

theorem dispatch_passes {valid : TokenSet} {s : σ} {before : List Token} (rest : List Token)
    (refused : ∀ t ∈ before, valid.allows t = false) :
    dispatch valid s (before ++ rest) = dispatch valid s rest := by
  induction before with
  | nil => rfl
  | cons t before ih =>
      rw [List.cons_append,dispatch_refused (refused t (by simp))]
      exact ih (fun u member => refused u (List.mem_cons_of_mem _ member))

theorem order_split (t : Token) : ∃ before after, order = before ++ t :: after ∧ t ∉ before ∧ t ∉ after := by
  cases t with
  | template => exact ⟨[],[.semicolon,.ternary,.markup],rfl,by decide,by decide⟩
  | semicolon => exact ⟨[.template],[.ternary,.markup],rfl,by decide,by decide⟩
  | ternary => exact ⟨[.template,.semicolon],[.markup],rfl,by decide,by decide⟩
  | markup => exact ⟨[.template,.semicolon,.ternary],[],rfl,by decide,by decide⟩

theorem alone_outcome (t : Token) (s : σ) :
    (alone t s).token = (if (attempt t s).isAccepted then some t else none) ∧
    (alone t s).cursor = (if (attempt t s).isAccepted then (attempt t s).cursor else s) := by
  obtain ⟨before,after,parts,early,late⟩ := order_split t
  have others : ∀ u, u ≠ t → (TokenSet.single t).allows u = false := by
    intro u other
    simpa [TokenSet.allows_single] using other
  have admitted : (TokenSet.single t).allows t = true := by simp [TokenSet.allows_single]
  have rest : dispatch (.single t) s after = ⟨none,s,[]⟩ := by
    have passed : dispatch (.single t) s (after ++ []) = dispatch (.single t) s [] :=
      dispatch_passes [] (fun u member => others u (fun same => late (same ▸ member)))
    simpa only [List.append_nil,dispatch] using passed
  have chain : dispatch (.single t) s order = dispatch (.single t) s (t :: after) := by
    rw [parts]
    exact dispatch_passes _ (fun u member => others u (fun same => early (same ▸ member)))
  simp only [alone,scan,chain,dispatch_cons,rest,admitted,true_and]
  cases (attempt t s).isAccepted with
  | true => exact ⟨rfl,rfl⟩
  | false =>
      simp only [Bool.false_eq_true,if_false]
      constructor <;> split <;> rfl

theorem wins_accepted (t : Token) (s : σ) : wins t s = (attempt t s).isAccepted := by
  unfold wins
  rw [(alone_outcome t s).1]
  cases (attempt t s).isAccepted <;> simp

theorem alone_taken (t : Token) (s : σ) : (alone t s).token = some t ↔ (attempt t s).isAccepted = true := by
  rw [← wins_accepted]
  exact beq_iff_eq.symm

theorem suppressed_exact (valid : TokenSet) (s : σ) : suppressed valid s = true ↔
    ¬(valid.allows .template = true ∧ (attempt .template s).isAccepted = true) ∧
    valid.allows .semicolon = true ∧ (attempt .semicolon s).isAccepted = false ∧
    suppresses valid .semicolon (attempt .semicolon s).cursor = true := by
  unfold suppressed suppresses questioned
  rw [wins_accepted]
  generalize (attempt .template s).isAccepted = literal
  cases attempt .semicolon s with
  | accepted after => simp [Attempt.isAccepted]
  | declined stopped => cases literal <;> simp [Attempt.isAccepted,Attempt.cursor,and_assoc]

theorem dispatch_suppressed {valid : TokenSet} {s : σ} (ends : suppressed valid s = true) :
    dispatch valid s order = ⟨none,s,[.suppressed]⟩ := by
  obtain ⟨untaken,admitted,declined,question⟩ := (suppressed_exact valid s).mp ends
  have passed : ¬(valid.allows .template = true ∧ suppresses valid .template (attempt .template s).cursor = true) := by
    rintro ⟨_,stops⟩
    cases suppresses_semicolon stops
  rw [order,dispatch_cons,if_neg untaken,if_neg passed,dispatch_cons,if_neg (by simp [declined]),
    if_pos ⟨admitted,question⟩]

theorem dispatch_unsuppressed {valid : TokenSet} {s : σ} (goes : suppressed valid s = false) :
    dispatch valid s order =
      match order.find? (fun t => valid.allows t && wins t s) with
      | some t => ⟨some t,(attempt t s).cursor,[]⟩
      | none => ⟨none,s,[]⟩ := by
  simp only [wins_accepted]
  by_cases taken : valid.allows .template = true ∧ (attempt .template s).isAccepted = true
  · rw [order,dispatch_cons,if_pos taken,List.find?_cons_of_pos (by simpa using taken)]
  · apply dispatch_first
    rintro t _ ⟨admitted,declined,stops⟩
    cases suppresses_semicolon stops
    have ends := (suppressed_exact valid s).mpr ⟨taken,admitted,declined,stops⟩
    rw [goes] at ends
    cases ends

theorem dispatch_winner {valid : TokenSet} {s : σ} {t : Token} (goes : suppressed valid s = false)
    (first : order.find? (fun t => valid.allows t && wins t s) = some t) :
    dispatch valid s order = ⟨some t,(alone t s).cursor,[]⟩ := by
  have won : wins t s = true := by
    have both := List.find?_some first
    simp only [Bool.and_eq_true] at both
    exact both.2
  rw [dispatch_unsuppressed goes,first,(alone_outcome t s).2,if_pos (by rw [← wins_accepted]; exact won)]

theorem dispatch_nobody {valid : TokenSet} {s : σ} (goes : suppressed valid s = false)
    (nobody : order.find? (fun t => valid.allows t && wins t s) = none) :
    dispatch valid s order = ⟨none,s,[]⟩ := by
  rw [dispatch_unsuppressed goes,nobody]

theorem dispatch_cases (valid : TokenSet) (s : σ) :
    (suppressed valid s = true ∧ dispatch valid s order = ⟨none,s,[.suppressed]⟩) ∨
    (suppressed valid s = false ∧ order.find? (fun t => valid.allows t && wins t s) = none ∧
      dispatch valid s order = ⟨none,s,[]⟩) ∨
    ∃ t, suppressed valid s = false ∧ order.find? (fun t => valid.allows t && wins t s) = some t ∧
      dispatch valid s order = ⟨some t,(alone t s).cursor,[]⟩ := by
  cases early : suppressed valid s with
  | true => exact Or.inl ⟨rfl,dispatch_suppressed early⟩
  | false =>
      cases first : order.find? (fun t => valid.allows t && wins t s) with
      | none => exact Or.inr (Or.inl ⟨rfl,rfl,dispatch_nobody early first⟩)
      | some t => exact Or.inr (Or.inr ⟨t,rfl,rfl,dispatch_winner early first⟩)

theorem scan_token (valid : TokenSet) (s : σ) : (scan valid s).token =
    (if suppressed valid s then none else order.find? (fun t => valid.allows t && wins t s)) := by
  change (dispatch valid s order).token = _
  rcases dispatch_cases valid s with ⟨early,ended⟩ | ⟨late,nobody,ended⟩ | ⟨t,late,first,ended⟩
  · rw [ended,early,if_pos rfl]
  · rw [ended,late,nobody,if_neg Bool.false_ne_true]
  · rw [ended,late,first,if_neg Bool.false_ne_true]

theorem scan_takes (valid : TokenSet) (s : σ) (t : Token) (taken : (scan valid s).token = some t) :
    (scan valid s).cursor = (alone t s).cursor := by
  change (dispatch valid s order).token = some t at taken
  change (dispatch valid s order).cursor = _
  rcases dispatch_cases valid s with ⟨_,ended⟩ | ⟨_,_,ended⟩ | ⟨u,_,_,ended⟩
  · rw [ended] at taken
    cases taken
  · rw [ended] at taken
    cases taken
  · rw [ended] at taken ⊢
    cases taken
    rfl

theorem scan_leaves (valid : TokenSet) (s : σ) (nobody : (scan valid s).token = none) :
    (scan valid s).cursor = s := by
  change (dispatch valid s order).token = none at nobody
  change (dispatch valid s order).cursor = s
  rcases dispatch_cases valid s with ⟨_,ended⟩ | ⟨_,_,ended⟩ | ⟨t,_,_,ended⟩
  · rw [ended]
  · rw [ended]
  · rw [ended] at nobody
    cases nobody

theorem scan_low {valid other : TokenSet} (same : other.bits &&& 0x0f = valid.bits &&& 0x0f) (s : σ) :
    (scan other s).token = (scan valid s).token ∧ (scan other s).cursor = (scan valid s).cursor := by
  have chain := dispatch_congr (TokenSet.allows_low same) s order
  simp only [scan,chain,and_self]

theorem scan_events (valid : TokenSet) (s : σ) : (scan valid s).events =
    (if suppressed valid s then [.suppressed] else []) ++ [.scanned valid (scan valid s).token] := by
  change (dispatch valid s order).events ++ [.scanned valid (dispatch valid s order).token] =
    _ ++ [.scanned valid (dispatch valid s order).token]
  rcases dispatch_cases valid s with ⟨early,ended⟩ | ⟨late,_,ended⟩ | ⟨t,late,_,ended⟩
  · rw [ended,early,if_pos rfl]
  · rw [ended,late,if_neg Bool.false_ne_true]
  · rw [ended,late,if_neg Bool.false_ne_true]

theorem scan_messages (valid : TokenSet) (s : σ) : (scan valid s).events.map Event.message =
    (if suppressed valid s then ["semicolon suppressed before `?`"] else []) ++ ["contextual scan"] := by
  rw [scan_events]
  cases suppressed valid s <;> rfl

-- Nothing of a declined trial is in the answer, and bits that name no token show
-- in the report alone.
theorem scan_exact (valid : TokenSet) (s : σ) :
    (scan valid s).token =
      (if suppressed valid s then none
       else [Token.template,.semicolon,.ternary,.markup].find? (fun t => valid.allows t && wins t s)) ∧
    (∀ t, (scan valid s).token = some t → (scan valid s).cursor = (alone t s).cursor) ∧
    ((scan valid s).token = none → (scan valid s).cursor = s) ∧
    (∀ other : TokenSet, other.bits &&& 0x0f = valid.bits &&& 0x0f →
      (scan other s).token = (scan valid s).token ∧ (scan other s).cursor = (scan valid s).cursor) ∧
    (scan valid s).events =
      (if suppressed valid s then [.suppressed] else []) ++ [.scanned valid (scan valid s).token] ∧
    (scan valid s).events.map Event.message =
      (if suppressed valid s then ["semicolon suppressed before `?`"] else []) ++ ["contextual scan"] :=
  ⟨scan_token valid s,scan_takes valid s,scan_leaves valid s,fun _ same => scan_low same s,
    scan_events valid s,scan_messages valid s⟩

theorem scan_exact_question :
    suppressed ⟨9⟩ (Recorder.startAt ['\n','?'] 0 []) = true ∧
      (scan ⟨9⟩ (Recorder.startAt ['\n','?'] 0 [])).token = none ∧
      (scan ⟨9⟩ (Recorder.startAt ['\n','?'] 0 [])).cursor = Recorder.startAt ['\n','?'] 0 [] ∧
      (0xf9 : UInt8) &&& 0x0f = 9 &&& 0x0f ∧ (scan ⟨0xf9⟩ (Recorder.startAt ['\n','?'] 0 [])).token = none := by
  have early : suppressed ⟨9⟩ (Recorder.startAt ['\n','?'] 0 []) = true := by decide +kernel
  obtain ⟨token,_,untouched,bits,_,_⟩ := scan_exact ⟨9⟩ (Recorder.startAt ['\n','?'] 0 [])
  rw [early,if_pos rfl] at token
  refine ⟨early,token,untouched token,by decide,?_⟩
  exact (bits ⟨0xf9⟩ (by decide)).1.trans token

end ContextScan.Dispatch
