import ContextScan.Proofs.Invariant

namespace ContextScan.Source
open Text

variable {text : List Char} {s t : Source}

theorem fresh_startAt {p : Place} (same : p.text = text) (sound : p.Sound) (fits : p.offset < UInt32.size) :
    fresh p = startAt text (UInt32.ofNat p.offset) := by
  obtain ⟨behind,ahead,offset⟩ := p
  have level : offset = width behind.reverse := by
    rw [width_reverse]
    exact sound
  subst level
  have there := startAt_boundary ahead fits
  rw [List.reverse_reverse] at there
  rw [← there,← same]
  rfl

theorem fresh_resumed {p : Place} {regions : List Region} (same : p.text = text) (sound : p.Sound)
    (small : width text < UInt32.size) : (fresh p).withRegions regions =
      (startAt text ((fresh p).withRegions regions).pos).withRegions ((fresh p).withRegions regions).regions := by
  have within : p.offset ≤ width text := by
    rw [← same]
    exact sound.boundary.le_width
  have there := fresh_startAt same sound (by omega)
  change (fresh p).withRegions regions = (startAt text (UInt32.ofNat p.offset)).withRegions regions
  rw [← there]

-- The same bytes ahead, and everything behind the cursor the same distance back:
-- `a` and `b` are where the shared text begins, `n` is its width. Region starts
-- count only where that text is.
structure Shifted (a b n : Nat) (s t : Source) : Prop where
  ahead : s.place.ahead = t.place.ahead
  room : s.place.offset + width s.place.ahead = a + n
  passed : a ≤ s.place.offset
  level : s.place.offset + b = t.place.offset + a
  tokenStart : s.tokenStart + b = t.tokenStart + a
  tokenEnd : s.tokenEnd.map (· + b) = t.tokenEnd.map (· + a)
  hasContent : s.hasContent = t.hasContent
  regions : ∀ d ≤ n, ((∃ region ∈ s.regions, region.start.toNat = a + d) ↔
    ∃ region ∈ t.regions, region.start.toNat = b + d)

theorem Shifted.next {a b n : Nat} (shifted : Shifted a b n s t) (found : (Cursor.lookahead s).isSome = true) :
    s.place.next.ahead = t.place.next.ahead ∧ s.place.next.offset + width s.place.next.ahead = a + n ∧
      a ≤ s.place.next.offset ∧ s.place.next.offset + b = t.place.next.offset + a := by
  obtain ⟨ahead,room,passed,level,_,_,_,_⟩ := shifted
  obtain ⟨⟨behind,left,i⟩,_,_,_,_⟩ := s
  obtain ⟨⟨behind',right,j⟩,_,_,_,_⟩ := t
  cases left with
  | nil => cases found
  | cons c left =>
      cases ahead
      simp only [Place.next,width] at room passed level ⊢
      refine ⟨trivial,?_,?_,?_⟩ <;> omega

theorem shifted_simulates {a b n : Nat} (left : a + n < UInt32.size) (right : b + n < UInt32.size) :
    Simulates (Shifted a b n) := by
  refine ⟨?_,?_,?_,?_,?_⟩
  · intro s t shifted
    exact congrArg List.head? shifted.ahead
  · intro s t shifted
    obtain ⟨_,room,passed,level,_,_,_,regions⟩ := shifted
    -- Starts are compared at the distance from where the shared text begins.
    have both := regions (s.place.offset - a) (by omega)
    rw [show a + (s.place.offset - a) = s.place.offset by omega,
      show b + (s.place.offset - a) = t.place.offset by omega] at both
    have one := atRegionStart_exact (s := s) (by omega)
    have two := atRegionStart_exact (s := t) (by omega)
    change s.atRegionStart = t.atRegionStart
    rw [Bool.eq_iff_iff,one,two]
    exact both
  · intro s t shifted found
    obtain ⟨ahead,room,passed,level⟩ := shifted.next found
    exact ⟨ahead,room,passed,level,shifted.tokenStart,shifted.tokenEnd,rfl,shifted.regions⟩
  · intro s t shifted found
    obtain ⟨ahead,room,passed,level⟩ := shifted.next found
    refine ⟨ahead,room,passed,level,?_,shifted.tokenEnd,shifted.hasContent,shifted.regions⟩
    change (if s.hasContent then s.tokenStart else s.place.next.offset) + b =
      (if t.hasContent then t.tokenStart else t.place.next.offset) + a
    rw [← shifted.hasContent]
    cases s.hasContent with
    | false => exact level
    | true => exact shifted.tokenStart
  · intro s t shifted
    exact ⟨shifted.ahead,shifted.room,shifted.passed,shifted.level,shifted.tokenStart,
      congrArg some shifted.level,shifted.hasContent,shifted.regions⟩

theorem start_shifted {before before' after : List Char} {left right : List Region}
    (one : width before + width after < UInt32.size) (two : width before' + width after < UInt32.size)
    (regions : ∀ d ≤ width after, ((∃ region ∈ left, region.start.toNat = width before + d) ↔
      ∃ region ∈ right, region.start.toNat = width before' + d)) :
    Shifted (width before) (width before') (width after)
      ((startAt (before ++ after) (UInt32.ofNat (width before))).withRegions left)
      ((startAt (before' ++ after) (UInt32.ofNat (width before'))).withRegions right) := by
  rw [startAt_boundary after (by omega),startAt_boundary after (by omega)]
  exact ⟨rfl,rfl,Nat.le_refl _,Nat.add_comm _ _,Nat.add_comm _ _,rfl,rfl,regions⟩

def SpansApart (a b : Nat) (s t : Source) : Prop :=
  (s.tokenSpan = .ok none ∧ t.tokenSpan = .ok none) ∨
  ∃ p q, s.tokenSpan = .ok (some p) ∧ t.tokenSpan = .ok (some q) ∧
    p.start.toNat + b = q.start.toNat + a ∧ p.length = q.length

theorem Shifted.spans {a b n : Nat} {text other : List Char} (shifted : Shifted a b n s t)
    (left : Valid text s) (right : Valid other t) (one : width text < UInt32.size)
    (two : width other < UInt32.size) : SpansApart a b s t := by
  have ends := shifted.tokenEnd
  have starts := shifted.tokenStart
  cases marked : s.tokenEnd with
  | none =>
      have unmarked : t.tokenEnd = none := by simpa [marked] using ends.symm
      exact .inl ⟨tokenSpan_unmarked marked,tokenSpan_unmarked unmarked⟩
  | some stop =>
      obtain ⟨stop',marked',apart⟩ : ∃ stop', t.tokenEnd = some stop' ∧ stop' + a = stop + b := by
        rw [marked] at ends
        exact Option.map_eq_some_iff.mp ends.symm
      have low : spanStart s stop + b = spanStart t stop' + a := by unfold spanStart; omega
      have lengths : stop - spanStart s stop = stop' - spanStart t stop' := by omega
      have first := Span.ofOffsets_numbers (left.fits one marked) (spanStart_le s stop)
      have second := Span.ofOffsets_numbers (right.fits two marked') (spanStart_le t stop')
      refine .inr ⟨_,_,tokenSpan_marked left one marked,tokenSpan_marked right two marked',?_,?_⟩
      · rw [first.1,second.1]
        exact low
      · exact congrArg UInt32.ofNat lengths

theorem scan_shifted {before before' after : List Char} {left right : List Region} (valid : TokenSet)
    (one : width before + width after < UInt32.size) (two : width before' + width after < UInt32.size)
    (regions : ∀ d ≤ width after, ((∃ region ∈ left, region.start.toNat = width before + d) ↔
      ∃ region ∈ right, region.start.toNat = width before' + d)) :
    let first := scan valid ((startAt (before ++ after) (UInt32.ofNat (width before))).withRegions left)
    let second := scan valid ((startAt (before' ++ after) (UInt32.ofNat (width before'))).withRegions right)
    first.token = second.token ∧
      first.cursor.pos.toNat + width before' = second.cursor.pos.toNat + width before ∧
      SpansApart (width before) (width before') first.cursor second.cursor := by
  intro first second
  have both := (shifted_simulates one two).scan valid (start_shifted one two regions)
  have small : width (before ++ after) < UInt32.size := by rw [width_append]; exact one
  have small' : width (before' ++ after) < UInt32.size := by rw [width_append]; exact two
  have sound : Valid (before ++ after) first.cursor := scan_valid (withRegions_valid (startAt_valid _ _) left) valid
  have sound' : Valid (before' ++ after) second.cursor := scan_valid (withRegions_valid (startAt_valid _ _) right) valid
  refine ⟨both.token,?_,both.cursor.spans sound sound' small small'⟩
  rw [sound.pos small,sound'.pos small']
  exact both.cursor.level

theorem SpansApart.same {a : Nat} (apart : SpansApart a a s t) : s.tokenSpan = t.tokenSpan := by
  rcases apart with ⟨left,right⟩ | ⟨p,q,left,right,starts,lengths⟩
  · rw [left,right]
  · have start : p.start = q.start := UInt32.toNat_inj.mp (Nat.add_right_cancel starts)
    obtain ⟨start',length'⟩ := q
    cases start
    cases lengths
    rw [left,right]

end ContextScan.Source

namespace ContextScan.Session
open Text Source

variable {text : List Char}

def OwnCopies : Nat → List Request → Prop
  | _,[] => True
  | n,.save :: rest => OwnCopies (n + 1) rest
  | n,.restore back :: rest => back < n ∧ OwnCopies n rest
  | n,_ :: rest => OwnCopies n rest

-- Requests that leave no fresh cursor behind are not listed: a declined
-- acceptance is one of them.
inductive Resets : Request → Reply → Prop where
  | startToken : Resets .startToken .done
  | setPos : Resets (.setPos offset) .done
  | finished : Resets .finishToken (.span (some span))

def Copying : Request → Prop
  | .save | .restore _ => True
  | _ => False

theorem perform_alone (c : Source) (kept : List Source) {request : Request} (uncopied : ¬Copying request) :
    perform ⟨c,kept⟩ request =
      (perform ⟨c,[]⟩ request).map (fun result => (⟨result.1.current,kept⟩,result.2)) := by
  cases request with
  | finishToken =>
      simp only [perform]
      cases c.finishToken <;> rfl
  | save => exact absurd trivial uncopied
  | restore back => exact absurd trivial uncopied
  | _ => rfl

theorem transcript_own {n : Nat} {c : Source} {kept other : List Source} {requests : List Request}
    (alike : ∀ back < n, kept[back]? = other[back]?) (own : OwnCopies n requests) :
    transcript ⟨c,kept⟩ requests = transcript ⟨c,other⟩ requests := by
  induction requests generalizing n c kept other with
  | nil => rfl
  | cons request rest ih =>
      by_cases copying : Copying request
      · cases request with
        | save =>
            -- The same cursor comes to lie on both lists, so one more copy agrees.
            have longer : ∀ back < n + 1, (c :: kept)[back]? = (c :: other)[back]? := by
              intro back within
              cases back with
              | zero => rfl
              | succ back => exact alike back (Nat.lt_of_succ_lt_succ within)
            have later := ih (c := c) longer own
            simp only [transcript,perform,Except.bind]
            rw [later]
        | restore back =>
            have same : kept.getD back c = other.getD back c := by
              rw [List.getD_eq_getElem?_getD,List.getD_eq_getElem?_getD,alike back own.1]
            have later := ih (c := other.getD back c) alike own.2
            simp only [transcript,perform,Except.bind,same]
            rw [later]
        | _ => exact absurd copying (by simp [Copying])
      · have after : OwnCopies n rest := by
          cases request with
          | save => exact absurd trivial copying
          | restore back => exact absurd trivial copying
          | _ => exact own
        rw [transcript,transcript,perform_alone c kept copying,perform_alone c other copying]
        cases perform ⟨c,[]⟩ request with
        | error fault => rfl
        | ok result =>
            have later := ih (c := result.1.current) alike after
            simp only [Except.map,Except.bind]
            rw [later]

theorem reset_fresh (small : width text < UInt32.size) {s next : Session} {request : Request} {reply : Reply}
    (valid : Valid text s) (performed : s.perform request = .ok (next,reply)) (resets : Resets request reply) :
    next.current = (startAt text next.current.pos).withRegions next.current.regions := by
  have sought : ∀ offset, s.current.setPos offset =
      (startAt text (s.current.setPos offset).pos).withRegions (s.current.setPos offset).regions := by
    intro offset
    have same : (s.current.place.seek offset.toNat).text = text := by
      rw [Place.seek_text]
      exact valid.1.held
    exact fresh_resumed same (Place.seek_floor _ valid.1.sound).1 small
  cases resets with
  | startToken =>
      cases performed
      exact fresh_resumed valid.1.held valid.1.sound small
  | setPos =>
      cases performed
      exact sought _
  | finished =>
      cases marked : s.current.tokenEnd with
      | none =>
          rw [perform_unmarked marked] at performed
          cases performed
      | some stop =>
          rw [perform_marked small valid.1 marked] at performed
          cases performed
          exact sought _

theorem reset_transcript {s : Session} {fresh : Source} {requests : List Request}
    (same : s.current = fresh) (own : OwnCopies 0 requests) :
    transcript s requests = transcript (start fresh) requests := by
  obtain ⟨current,kept⟩ := s
  cases same
  exact transcript_own (fun back within => absurd within (Nat.not_lt_zero back)) own

-- Neither what was asked of a cursor before nor what text and regions lie behind
-- it shows in what it answers from here on.
theorem scan_forgets :
    (∀ (text : List Char), width text < UInt32.size → ∀ first : Source,
      (first = .start text ∨ ∃ offset, first = .startAt text offset) → ∀ requests : List Request,
        ∃ before, run (start first) requests = .ok before ∧
          ∀ last next reply, before.perform last = .ok (next,reply) → Resets last reply →
            next.current = (startAt text next.current.pos).withRegions next.current.regions ∧
            ∀ more, OwnCopies 0 more → transcript next more =
              transcript (start ((startAt text next.current.pos).withRegions next.current.regions)) more) ∧
    (∀ (before before' after : List Char) (left right : List Region) (valid : TokenSet),
      width before + width after < UInt32.size → width before' + width after < UInt32.size →
      (∀ d ≤ width after, ((∃ region ∈ left, region.start.toNat = width before + d) ↔
        ∃ region ∈ right, region.start.toNat = width before' + d)) →
      let one := scan valid ((startAt (before ++ after) (UInt32.ofNat (width before))).withRegions left)
      let two := scan valid ((startAt (before' ++ after) (UInt32.ofNat (width before'))).withRegions right)
      one.token = two.token ∧ one.cursor.pos.toNat + width before' = two.cursor.pos.toNat + width before ∧
        SpansApart (width before) (width before') one.cursor two.cursor) ∧
    (∀ (before after : List Char) (left right : List Region) (valid : TokenSet),
      width before + width after < UInt32.size →
      (∀ n ≥ width before, ((∃ region ∈ left, region.start.toNat = n) ↔
        ∃ region ∈ right, region.start.toNat = n)) →
      let cursor := startAt (before ++ after) (UInt32.ofNat (width before))
      let one := scan valid (cursor.withRegions left)
      let two := scan valid (cursor.withRegions right)
      one.token = two.token ∧ one.cursor.pos = two.cursor.pos ∧
        one.cursor.tokenSpan = two.cursor.tokenSpan) := by
  refine ⟨?_,?_,?_⟩
  · intro text small first begins requests
    obtain ⟨before,ran,valid⟩ := run_valid small (begun_valid begins) requests
    refine ⟨before,ran,?_⟩
    intro last next reply performed resets
    have same := reset_fresh small valid performed resets
    exact ⟨same,fun more own => reset_transcript same own⟩
  · intro before before' after left right valid one two regions
    exact scan_shifted valid one two regions
  · intro before after left right valid one regions
    have starts : ∀ d ≤ width after, ((∃ region ∈ left, region.start.toNat = width before + d) ↔
        ∃ region ∈ right, region.start.toNat = width before + d) :=
      fun d _ => regions _ (Nat.le_add_right _ _)
    obtain ⟨token,position,spans⟩ := scan_shifted valid one one starts
    exact ⟨token,UInt32.toNat_inj.mp (Nat.add_right_cancel position),spans.same⟩

theorem scan_forgets_accented :
    (width ['\u00e9','x'] < UInt32.size ∧ OwnCopies 0 [.save,.scan ⟨8⟩,.restore] ∧
      ∃ before next reply, run (start (.startAt ['\u00e9','x'] 1)) [.advance,.markEnd,.advance] = .ok before ∧
        before.perform .finishToken = .ok (next,reply) ∧
        next.current = (startAt ['\u00e9','x'] next.current.pos).withRegions next.current.regions) ∧
    (scan ⟨1⟩ ((startAt ['\u00e9',' ','x'] 2).withRegions [⟨3,4⟩])).token =
      (scan ⟨1⟩ ((startAt [' ','x'] 0).withRegions [⟨1,9⟩])).token ∧
    (scan ⟨1⟩ ((startAt ['\u00e9',' ','x'] 2).withRegions [⟨0,1⟩,⟨3,4⟩,⟨3,9⟩])).token =
      (scan ⟨1⟩ ((startAt ['\u00e9',' ','x'] 2).withRegions [⟨3,4⟩])).token := by
  have small : width ['\u00e9','x'] < UInt32.size := by decide
  have own : OwnCopies 0 [.save,.scan ⟨8⟩,.restore] := by simp [OwnCopies]
  obtain ⟨forget,shift,ignore⟩ := scan_forgets
  refine ⟨⟨small,own,?_⟩,?_,?_⟩
  · obtain ⟨before,ran,resetting⟩ := forget ['\u00e9','x'] small _ (.inr ⟨1,rfl⟩) [.advance,.markEnd,.advance]
    have finished : ∃ next span, before.perform .finishToken = .ok (next,.span (some span)) := by
      cases ran
      exact ⟨_,_,rfl⟩
    obtain ⟨next,span,performed⟩ := finished
    exact ⟨before,next,_,ran,performed,(resetting _ next _ performed .finished).1⟩
  · exact (shift ['\u00e9'] [] [' ','x'] [⟨3,4⟩] [⟨1,9⟩] ⟨1⟩ (by decide) (by decide) (by decide)).1
  · refine (ignore ['\u00e9'] [' ','x'] [⟨0,1⟩,⟨3,4⟩,⟨3,9⟩] [⟨3,4⟩] ⟨1⟩ (by decide) ?_).1
    intro n ahead
    have behind : (0 : Nat) ≠ n := by
      have wide : width ['\u00e9'] = 2 := by decide
      omega
    simp [behind]

end ContextScan.Session
