import ContextScan.Proofs.LiteralRuns

namespace ContextScan.Literal

-- The text cannot go on at the character with the given index. What opens an
-- interpolation is told by two characters, and a dollar sign alone does not stop it.
def StopsAt : Literal → List Char → Nat → Prop
  | .template,cs,n => n = cs.length ∨ cs[n]? = some '\x60' ∨ cs[n]? = some '\\' ∨ cs[n]? = some '$' ∧ cs[n + 1]? = some '{'
  | .markup,cs,n => n = cs.length ∨ cs[n]? = some '<' ∨ cs[n]? = some '{'

structure EndsAt (kind : Literal) (cs : List Char) (n : Nat) : Prop where
  stops : kind.StopsAt cs n
  first : ∀ k < n, ¬kind.StopsAt cs k

variable {kind : Literal} {cs : List Char} {m n : Nat}

theorem EndsAt.unique (left : kind.EndsAt cs m) (right : kind.EndsAt cs n) : m = n := by
  apply Nat.le_antisymm
  · apply Nat.le_of_not_lt
    intro later
    exact left.first n later right.stops
  · apply Nat.le_of_not_lt
    intro later
    exact right.first m later left.stops

theorem opens_drop (cs : List Char) (n : Nat) :
    opens (cs.drop n) = true ↔ cs[n]? = some '$' ∧ cs[n + 1]? = some '{' := by
  simp [opens,List.tail_drop,List.head?_drop]

theorem stops_drop (inside : n ≤ cs.length) : kind.stops (cs.drop n) = true ↔ kind.StopsAt cs n := by
  rcases Nat.lt_or_eq_of_le inside with before | rfl
  · have other : n ≠ cs.length := Nat.ne_of_lt before
    have here : cs[n]? = some cs[n] := List.getElem?_eq_getElem before
    cases kind with
    | template => simp [stops,opens_drop,StopsAt,List.head?_drop,here,other,or_assoc]
    | markup => simp [stops,StopsAt,List.head?_drop,here,other]
  · simp only [List.drop_length,stops_nil,true_iff]
    cases kind with
    | template => exact .inl rfl
    | markup => exact .inl rfl

theorem run_ends (kind : Literal) (cs : List Char) : kind.EndsAt cs (kind.run cs) := by
  obtain ⟨inside,literal,ended⟩ := run_exact kind cs
  refine ⟨(stops_drop inside).mp ended,?_⟩
  intro k before stopped
  have passed := literal k before
  rw [(stops_drop (Nat.le_of_lt (Nat.lt_of_lt_of_le before inside))).mpr stopped] at passed
  cases passed

theorem leave_offset (kind : Literal) (s : Source) : (kind.leave s).place.offset =
    s.place.offset + (if kind = .template ∧ opens s.place.ahead = true then 1 else 0) := by
  unfold leave
  rw [show TextCursor.ahead s = s.place.ahead from rfl]
  split
  · rename_i interpolated
    obtain ⟨⟨behind,ahead,offset⟩,_,_,_,_⟩ := s
    obtain ⟨rest,rfl⟩ := List.head?_eq_some_iff.mp (opens_dollar interpolated.2)
    rfl
  · rfl

end ContextScan.Literal

namespace ContextScan.Source
open Text TextCursor

variable {before after : List Char} {s : Source}

theorem literal_token (kind : Literal) {stopped : Source} (small : width (before ++ after) < UInt32.size)
    (ready : Ready (before ++ after) s) (front : s.place.ahead = after) (offset : s.place.offset = width before)
    (made : Calls s (taking (kind.run after)) stopped) :
    (kind.leave stopped).tokenSpan =
      .ok (some (.ofOffsets (width before) (width before + width (after.take (kind.run after))))) ∧
    (kind.leave stopped).tokenText = .ok (some (after.take (kind.run after))) ∧
    (kind.leave stopped).pos.toNat = width before + width (after.take (kind.run after)) +
      (if kind = .template ∧ Literal.opens (after.drop (kind.run after)) = true then 1 else 0) := by
  have further := (taking_start made).2
  have left : stopped.place.ahead = s.place.ahead.drop (passed (taking (kind.run after))) := made.ahead_eq
  have kept := calls_valid ready.valid (made.append (kind.leave_calls stopped))
  subst front
  obtain ⟨begun,marked⟩ := literal_marks ready made
  rw [offset] at begun marked further
  rw [passed_taking] at left
  have parts : before ++ s.place.ahead =
      before ++ s.place.ahead.take (kind.run s.place.ahead) ++ s.place.ahead.drop (kind.run s.place.ahead) := by
    rw [List.append_assoc,List.take_append_drop]
  obtain ⟨span,characters⟩ := marked_from kept small parts begun marked
  refine ⟨span,characters,?_⟩
  rw [kept.pos small,Literal.leave_offset,further,left]

-- Literal text is taken from the cursor up to the first place where it cannot go
-- on, and nothing is taken where that is the cursor's own place. The end is staked
-- there, though the cursor has passed the dollar sign of an interpolation.
theorem scan_longest_run (kind : Literal) (before after : List Char) (regions : List Region)
    (small : width (before ++ after) < UInt32.size) :
    let s := (startAt (before ++ after) (UInt32.ofNat (width before))).withRegions regions
    let found := scan (.single kind.token) s
    ∃ n, kind.EndsAt after n ∧ (∀ m, kind.EndsAt after m → m = n) ∧
      found.token = (if 0 < n then some kind.token else none) ∧
      (n = 0 → found.cursor = s) ∧
      (0 < n →
        found.cursor.tokenSpan = .ok (some (.ofOffsets (width before) (width before + width (after.take n)))) ∧
        found.cursor.tokenText = .ok (some (after.take n)) ∧
        found.cursor.pos.toNat = width before + width (after.take n) +
          (if kind = .template ∧ after[n]? = some '$' ∧ after[n + 1]? = some '{' then 1 else 0)) := by
  intro s found
  obtain ⟨ready,here,offset⟩ := startAt_here before after regions small
  obtain ⟨stopped,made,token,cursor⟩ := literal_alone kind s
  rw [show ahead s = after from here] at made token cursor
  refine ⟨kind.run after,Literal.run_ends kind after,?_,token,?_,?_⟩
  · intro m ends
    exact ends.unique (Literal.run_ends kind after)
  · intro zero
    simpa [zero] using cursor
  · intro filled
    have taken : found.cursor = kind.leave stopped := by simpa [filled] using cursor
    rw [taken]
    simpa only [Literal.opens_drop] using literal_token kind small ready here offset made

theorem scan_longest_run_dollars :
    let s := (startAt ['\u00e9','\u2713','$','$','$','{'] 2).withRegions []
    width ['\u00e9','\u2713','$','$','$','{'] < UInt32.size ∧ (scan ⟨2⟩ s).token = some .template ∧
      (scan ⟨2⟩ s).cursor.tokenSpan = .ok (some ⟨2,5⟩) ∧
      (scan ⟨2⟩ s).cursor.tokenText = .ok (some ['\u2713','$','$']) ∧ (scan ⟨2⟩ s).cursor.pos.toNat = 8 := by
  intro s
  have small : width (['\u00e9'] ++ ['\u2713','$','$','$','{']) < UInt32.size := by decide
  have ends : Literal.template.EndsAt ['\u2713','$','$','$','{'] 3 := Literal.run_ends .template _
  obtain ⟨n,_,unique,token,_,taken⟩ := scan_longest_run .template ['\u00e9'] ['\u2713','$','$','$','{'] [] small
  cases unique 3 ends
  obtain ⟨span,characters,pos⟩ := taken (by decide)
  exact ⟨small,token,span,characters,pos⟩

end ContextScan.Source
