import ContextScan.Proofs.Invariant
import ContextScan.Proofs.Primitives

namespace ContextScan.Text

theorem width_pos {cs : List Char} (filled : cs ≠ []) : 0 < width cs := by
  cases cs with
  | nil => exact absurd rfl filled
  | cons c cs => exact Nat.lt_of_lt_of_le c.utf8Size_pos (Nat.le_add_right _ _)

end ContextScan.Text

namespace ContextScan.Place
open Text

theorem ahead_shorter {p q : Place} (left : p.Sound) (right : q.Sound) (text : p.text = q.text)
    (later : p.offset < q.offset) : q.ahead.length < p.ahead.length := by
  have before : p.offset = width p.behind.reverse := by rw [width_reverse]; exact left
  have after : q.offset = width q.behind.reverse := by rw [width_reverse]; exact right
  rcases List.append_eq_append_iff.mp text with ⟨between,behind,ahead⟩ | ⟨between,behind,_⟩
  · cases between with
    | nil =>
        rw [List.append_nil] at behind
        rw [behind] at after
        omega
    | cons c between =>
        rw [ahead,List.length_append,List.length_cons]
        omega
  · rw [behind,width_append] at before
    omega

theorem offset_lt_next {p : Place} (more : p.ahead ≠ []) : p.offset < p.next.offset := by
  obtain ⟨behind,ahead,offset⟩ := p
  cases ahead with
  | nil => exact absurd rfl more
  | cons c ahead => exact Nat.lt_add_of_pos_right c.utf8Size_pos

end ContextScan.Place

namespace ContextScan.Source
open Text TextCursor

variable {text : List Char} {s t : Source}

-- A cursor with nothing pending, as a host's round begins.
structure Ready (text : List Char) (s : Source) : Prop where
  valid : Valid text s
  unmarked : s.tokenEnd = none
  contentless : s.hasContent = false

theorem setPos_ready (valid : Valid text s) (offset : UInt32) : Ready text (s.setPos offset) :=
  ⟨setPos_valid valid offset,rfl,rfl⟩

theorem startAt_ready (text : List Char) (offset : UInt32) (regions : List Region) :
    Ready text ((startAt text offset).withRegions regions) :=
  ⟨withRegions_valid (startAt_valid text offset) regions,rfl,rfl⟩

theorem startAt_here (before after : List Char) (regions : List Region) (small : width (before ++ after) < UInt32.size) :
    let s := (startAt (before ++ after) (UInt32.ofNat (width before))).withRegions regions
    Ready (before ++ after) s ∧ s.place.ahead = after ∧ s.place.offset = width before := by
  refine ⟨startAt_ready _ _ regions,?_⟩
  rw [startAt_boundary after (width_lead small)]
  exact ⟨rfl,rfl⟩

theorem Ready.tokenStart (ready : Ready text s) : s.tokenStart = s.place.offset :=
  ready.valid.contentless ready.contentless

theorem calls_valid {calls : List Primitive} (valid : Valid text s) (made : Calls s calls t) : Valid text t := by
  induction made with
  | nil => exact valid
  | advance _ _ ih => exact ih (advance_valid valid)
  | skip _ _ ih => exact ih (skip_valid valid)
  | markEnd _ ih => exact ih (markEnd_valid valid)

theorem attempt_valid (valid : Valid text s) (token : Token) : Valid text (Recognizer.attempt token s).cursor := by
  obtain ⟨calls,made⟩ := attempt_calls token s
  exact calls_valid valid made

-- Trivia in front of any content takes the token's start along.
theorem skips_start (contentless : s.hasContent = false) (start : s.tokenStart = s.place.offset)
    (skipped : Skips s t) : t.hasContent = false ∧ t.tokenStart = t.place.offset ∧ t.tokenEnd = s.tokenEnd ∧
      s.place.offset ≤ t.place.offset := by
  obtain ⟨n,made⟩ := skipped
  induction n generalizing s with
  | zero => cases made; exact ⟨contentless,start,rfl,Nat.le_refl _⟩
  | succ n ih =>
      cases made with
      | skip _ rest =>
          have begun : s.skip.tokenStart = s.skip.place.offset := by simp [skip,contentless]
          obtain ⟨content,moved,marked,onward⟩ := ih (s := s.skip) contentless begun rest
          exact ⟨content,moved,marked,Nat.le_trans (Place.offset_le_next s.place) onward⟩

theorem taking_start {n : Nat} (made : Calls s (taking n) t) : t.tokenStart = s.tokenStart ∧
    t.place.offset = s.place.offset + width (s.place.ahead.take n) := by
  induction n generalizing s with
  | zero => cases made; exact ⟨rfl,by simp [width]⟩
  | succ n ih =>
      cases made with
      | markEnd rest =>
          cases rest with
          | advance present rest =>
              obtain ⟨start,onward⟩ := ih rest
              refine ⟨start,?_⟩
              obtain ⟨⟨behind,ahead,offset⟩,_,_,_,_⟩ := s
              cases ahead with
              | nil => cases present
              | cons c ahead =>
                  rw [onward]
                  simp only [Cursor.advance,Cursor.markEnd,advance,markEnd,Place.next,List.take_succ_cons,width]
                  omega

theorem literal_marks {kind : Literal} {stopped : Source} (ready : Ready text s)
    (made : Calls s (taking (kind.run s.place.ahead)) stopped) :
    (kind.leave stopped).tokenStart = s.place.offset ∧
    (kind.leave stopped).tokenEnd = some (s.place.offset + width (s.place.ahead.take (kind.run s.place.ahead))) := by
  obtain ⟨start,onward⟩ := taking_start made
  rw [ready.tokenStart] at start
  rw [← onward]
  unfold Literal.leave
  split
  · exact ⟨start,rfl⟩
  · exact ⟨start,rfl⟩

-- Where an accepted token lies. A terminator lies at the cursor and is empty,
-- any other token is not.
theorem took_span {token : Token} (ready : Ready text s) (took : Took s token t) : ∃ stop,
    t.tokenEnd = some stop ∧ s.place.offset ≤ spanStart t stop ∧
    (token = .semicolon ∧ stop = s.place.offset ∨ spanStart t stop < stop) := by
  cases took with
  | semicolon skipped =>
      obtain ⟨_,start,marked,onward⟩ := skips_start (s := s.markEnd) ready.contentless ready.tokenStart skipped
      change s.place.offset ≤ t.place.offset at onward
      refine ⟨s.place.offset,marked,?_,.inl ⟨rfl,rfl⟩⟩
      rw [spanStart,start]
      omega
  | literal kind filled made =>
      obtain ⟨start,marked⟩ := literal_marks ready made
      have positive : 0 < width (s.place.ahead.take (kind.run s.place.ahead)) := by
        apply width_pos
        intro empty
        rcases List.take_eq_nil_iff.mp empty with zero | ended
        · exact absurd filled (by simp [ahead,zero])
        · exact absurd filled (by simp [ahead,ended,Literal.run])
      refine ⟨_,marked,?_,.inr ?_⟩
      · rw [spanStart,start]; omega
      · rw [spanStart,start]; omega
  | @ternary mark made question =>
      obtain ⟨_,start,_,onward⟩ := skips_start ready.contentless ready.tokenStart ⟨_,made⟩
      have more : mark.place.ahead ≠ [] := by
        intro ended
        change mark.place.ahead.head? = some '?' at question
        rw [ended] at question
        cases question
      have further := Place.offset_lt_next more
      refine ⟨mark.place.next.offset,rfl,?_,.inr ?_⟩
      · change s.place.offset ≤ min mark.tokenStart mark.place.next.offset
        omega
      · change min mark.tokenStart mark.place.next.offset < mark.place.next.offset
        omega

theorem marked_slice (valid : Valid text s) (small : width text < UInt32.size) {stop : Nat}
    (marked : s.tokenEnd = some stop) : ∃ middle,
      (Span.ofOffsets (spanStart s stop) stop).slice text = .ok (some middle) := by
  have boundary := valid.stopBoundary stop marked
  have fits := valid.fits small marked
  obtain ⟨before,middle,after,parts,low,high⟩ :=
    (spanStart_boundary valid marked).between boundary (spanStart_le s stop)
  have slice := Span.slice_offsets before middle after (by omega)
  rw [high,low,← parts] at slice
  exact ⟨middle,slice⟩

theorem marked_from {before middle after : List Char} (valid : Valid text s) (small : width text < UInt32.size)
    (parts : text = before ++ middle ++ after) (begun : s.tokenStart = width before) (marked : s.tokenEnd = some (width before + width middle)) :
    s.tokenSpan = .ok (some (.ofOffsets (width before) (width before + width middle))) ∧
      s.tokenText = .ok (some middle) := by
  have level : spanStart s (width before + width middle) = width before := by
    rw [spanStart,begun]
    exact Nat.min_eq_left (Nat.le_add_right _ _)
  have span := tokenSpan_marked valid small marked
  have slice := Span.slice_offsets before middle after (valid.fits small marked)
  rw [level] at span
  refine ⟨span,?_⟩
  rw [tokenText,span,Except.bind]
  dsimp only
  rw [valid.held,parts]
  exact slice

end ContextScan.Source
