import ContextScan.Proofs.Boundary
import ContextScan.Proofs.Simulation
import ContextScan.Session

namespace ContextScan.Text

theorem Boundary.between {a b : Nat} {cs : List Char} (left : Boundary a cs) (right : Boundary b cs)
    (ordered : a ≤ b) : ∃ before middle after, cs = before ++ middle ++ after ∧
      width before = a ∧ width before + width middle = b := by
  obtain ⟨before,rest,rfl,rfl⟩ := left
  obtain ⟨longer,after,same,rfl⟩ := right
  rcases List.append_eq_append_iff.mp same with ⟨middle,rfl,rfl⟩ | ⟨extra,rfl,rfl⟩
  · exact ⟨before,middle,after,by rw [List.append_assoc],rfl,(width_append before middle).symm⟩
  · rw [width_append] at ordered
    exact ⟨longer ++ extra,[],rest,by rw [List.append_nil],rfl,by rw [width_append,width]; omega⟩

end ContextScan.Text

namespace ContextScan.Span
open Text

def ofOffsets (start stop : Nat) : Span := ⟨UInt32.ofNat start,UInt32.ofNat (stop - start)⟩

theorem ofOffsets_numbers {start stop : Nat} (fits : stop < UInt32.size) (ordered : start ≤ stop) :
    (ofOffsets start stop).start.toNat = start ∧ (ofOffsets start stop).length.toNat = stop - start :=
  ⟨UInt32.toNat_ofNat_of_lt' (by omega),UInt32.toNat_ofNat_of_lt' (by omega)⟩

theorem ofOffsets_reach {start stop : Nat} (fits : stop < UInt32.size) (ordered : start ≤ stop) :
    (ofOffsets start stop).reach = stop := by
  obtain ⟨low,length⟩ := ofOffsets_numbers fits ordered
  rw [reach,low,length]
  omega

theorem ofOffsets_empty {start stop : Nat} (fits : stop < UInt32.size) (ordered : start ≤ stop) :
    (ofOffsets start stop).isEmpty = decide (start = stop) := by
  obtain ⟨_,length⟩ := ofOffsets_numbers fits ordered
  rw [isEmpty,Bool.eq_iff_iff,beq_iff_eq,decide_eq_true_iff,← UInt32.toNat_inj,length]
  change stop - start = 0 ↔ start = stop
  omega

theorem ofBounds_offsets {start stop : Nat} (fits : stop < UInt32.size) (ordered : start ≤ stop) :
    ofBounds (UInt32.ofNat start) (UInt32.ofNat stop) = .ok (ofOffsets start stop) := by
  have low : (UInt32.ofNat start).toNat = start := UInt32.toNat_ofNat_of_lt' (by omega)
  have high : (UInt32.ofNat stop).toNat = stop := UInt32.toNat_ofNat_of_lt' fits
  have le : UInt32.ofNat start ≤ UInt32.ofNat stop := by rw [UInt32.le_iff_toNat_le,low,high]; exact ordered
  have length : UInt32.ofNat stop - UInt32.ofNat start = UInt32.ofNat (stop - start) := by
    apply UInt32.toNat_inj.mp
    rw [UInt32.toNat_sub_of_le _ _ le,low,high,UInt32.toNat_ofNat_of_lt' (by omega)]
  rw [ofBounds,if_pos le,length,ofOffsets]

theorem stop_offsets {start stop : Nat} (fits : stop < UInt32.size) (ordered : start ≤ stop) :
    (ofOffsets start stop).stop = .ok (UInt32.ofNat stop) := by
  obtain ⟨low,length⟩ := ofOffsets_numbers fits ordered
  have room : (ofOffsets start stop).start.toNat + (ofOffsets start stop).length.toNat < UInt32.size := by omega
  obtain ⟨sum,number⟩ := Offset.add_ok room
  have same : (ofOffsets start stop).start + (ofOffsets start stop).length = UInt32.ofNat stop := by
    apply UInt32.toNat_inj.mp
    rw [number,low,length,UInt32.toNat_ofNat_of_lt' fits]
    omega
  rw [Span.stop,sum,same]

theorem slice_offsets (before middle after : List Char) (fits : width before + width middle < UInt32.size) :
    (ofOffsets (width before) (width before + width middle)).slice (before ++ middle ++ after) = .ok (some middle) := by
  have ordered : width before ≤ width before + width middle := Nat.le_add_right _ _
  rw [slice,stop_offsets fits ordered,Except.map,(ofOffsets_numbers fits ordered).1,UInt32.toNat_ofNat_of_lt' fits,
    slice_middle]

end ContextScan.Span

namespace ContextScan.Source
open Text

-- What holds of every cursor over a text, in whatever order its token was
-- marked, skipped past and taken up again. A mark may lie before the token's
-- start, when trivia followed it, so the two are not ordered.
structure Valid (text : List Char) (s : Source) : Prop where
  held : s.text = text
  sound : s.place.Sound
  startBoundary : Boundary s.tokenStart text
  startWithin : s.tokenStart ≤ s.place.offset
  stopBoundary : ∀ stop, s.tokenEnd = some stop → Boundary stop text
  stopWithin : ∀ stop, s.tokenEnd = some stop → stop ≤ s.place.offset
  contentless : s.hasContent = false → s.tokenStart = s.place.offset

variable {text : List Char} {s : Source}

theorem Valid.boundary (valid : Valid text s) : Boundary s.place.offset text := by
  have here := valid.sound.boundary
  rwa [show s.place.text = text from valid.held] at here

theorem Valid.whole (valid : Valid text s) : s.place.offset + width s.place.ahead = width text := by
  rw [← valid.held,Source.text,Place.text,width_append,width_reverse,valid.sound]

theorem Valid.within (valid : Valid text s) : s.place.offset ≤ width text := valid.boundary.le_width

theorem Valid.pos (valid : Valid text s) (small : width text < UInt32.size) : s.pos.toNat = s.place.offset :=
  UInt32.toNat_ofNat_of_lt' (Nat.lt_of_le_of_lt valid.within small)

theorem fresh_valid {p : Place} {regions : List Region} (same : p.text = text) (sound : p.Sound) :
    Valid text ((fresh p).withRegions regions) := by
  have boundary : Boundary p.offset text := by
    rw [← same]
    exact sound.boundary
  refine ⟨same,sound,boundary,Nat.le_refl _,?_,?_,fun _ => rfl⟩
  · intro stop marked; cases marked
  · intro stop marked; cases marked

theorem start_valid (text : List Char) : Valid text (start text) :=
  fresh_valid (Place.start_text text) (Place.start_sound text)

theorem startToken_valid (valid : Valid text s) : Valid text s.startToken :=
  fresh_valid valid.held valid.sound

theorem setPos_valid (valid : Valid text s) (offset : UInt32) : Valid text (s.setPos offset) := by
  apply fresh_valid
  · rw [Place.seek_text]
    exact valid.held
  · exact (Place.seek_floor _ valid.sound).1

theorem startAt_valid (text : List Char) (offset : UInt32) : Valid text (startAt text offset) :=
  setPos_valid (start_valid text) offset

theorem withRegions_valid (valid : Valid text s) (regions : List Region) : Valid text (s.withRegions regions) :=
  ⟨valid.held,valid.sound,valid.startBoundary,valid.startWithin,valid.stopBoundary,valid.stopWithin,valid.contentless⟩

theorem advance_valid (valid : Valid text s) : Valid text s.advance := by
  have onward := Place.offset_le_next s.place
  refine ⟨?_,valid.sound.next,valid.startBoundary,Nat.le_trans valid.startWithin onward,valid.stopBoundary,?_,?_⟩
  · exact (Place.next_text s.place).trans valid.held
  · intro stop marked
    exact Nat.le_trans (valid.stopWithin stop marked) onward
  · intro content; cases content

theorem skip_valid (valid : Valid text s) : Valid text s.skip := by
  have onward := Place.offset_le_next s.place
  have same : s.skip.text = text := (Place.next_text s.place).trans valid.held
  have there : Boundary s.place.next.offset text := by
    rw [← same]
    exact valid.sound.next.boundary
  have stops : ∀ stop, s.tokenEnd = some stop → stop ≤ s.place.next.offset := by
    intro stop marked
    exact Nat.le_trans (valid.stopWithin stop marked) onward
  cases content : s.hasContent with
  | false =>
      have start : s.skip.tokenStart = s.place.next.offset := by simp [skip,content]
      refine ⟨same,valid.sound.next,by rw [start]; exact there,Nat.le_of_eq start,valid.stopBoundary,stops,?_⟩
      intro _
      exact start
  | true =>
      have start : s.skip.tokenStart = s.tokenStart := by simp [skip,content]
      refine ⟨same,valid.sound.next,by rw [start]; exact valid.startBoundary,?_,valid.stopBoundary,stops,?_⟩
      · rw [start]; exact Nat.le_trans valid.startWithin onward
      · intro contentless
        have still : s.skip.hasContent = true := content
        rw [still] at contentless
        cases contentless

theorem markEnd_valid (valid : Valid text s) : Valid text s.markEnd := by
  refine ⟨valid.held,valid.sound,valid.startBoundary,valid.startWithin,?_,?_,valid.contentless⟩
  · intro stop marked
    cases marked
    exact valid.boundary
  · intro stop marked
    cases marked
    exact Nat.le_refl _

theorem scan_valid (valid : Valid text s) (admissible : TokenSet) : Valid text (scan admissible s).cursor := by
  apply scan_keeps (P := Valid text)
  · intro s valid _; exact advance_valid valid
  · intro s valid _; exact skip_valid valid
  · intro s valid; exact markEnd_valid valid
  · exact valid

def spanStart (s : Source) (stop : Nat) : Nat := min s.tokenStart stop

theorem Valid.fits (valid : Valid text s) (small : width text < UInt32.size) {stop : Nat}
    (marked : s.tokenEnd = some stop) : stop < UInt32.size := by
  have within := valid.stopWithin stop marked
  have inside := valid.within
  omega

theorem spanStart_le (s : Source) (stop : Nat) : spanStart s stop ≤ stop := Nat.min_le_right _ _

theorem tokenSpan_unmarked (unmarked : s.tokenEnd = none) : s.tokenSpan = .ok none := by
  rw [tokenSpan,unmarked]

theorem tokenSpan_marked (valid : Valid text s) (small : width text < UInt32.size) {stop : Nat}
    (marked : s.tokenEnd = some stop) : s.tokenSpan = .ok (some (.ofOffsets (spanStart s stop) stop)) := by
  rw [tokenSpan,marked]
  change (Span.ofBounds (UInt32.ofNat (spanStart s stop)) (UInt32.ofNat stop)).map some = _
  rw [Span.ofBounds_offsets (valid.fits small marked) (spanStart_le s stop)]
  rfl

theorem finishToken_unmarked (unmarked : s.tokenEnd = none) : s.finishToken = .ok (none,s) := by
  rw [finishToken,tokenSpan_unmarked unmarked]
  rfl

theorem finishToken_marked (valid : Valid text s) (small : width text < UInt32.size) {stop : Nat}
    (marked : s.tokenEnd = some stop) :
    s.finishToken = .ok (some (.ofOffsets (spanStart s stop) stop),s.setPos (UInt32.ofNat stop)) := by
  rw [finishToken,tokenSpan_marked valid small marked,Except.bind]
  dsimp only
  rw [Span.stop_offsets (valid.fits small marked) (spanStart_le s stop)]
  rfl

theorem setPos_offset (valid : Valid text s) {stop : Nat} (boundary : Boundary stop text)
    (fits : stop < UInt32.size) : (s.setPos (UInt32.ofNat stop)).place.offset = stop := by
  have there : Boundary stop s.place.text := by
    rw [show s.place.text = text from valid.held]
    exact boundary
  change (s.place.seek (UInt32.ofNat stop).toNat).offset = stop
  rw [UInt32.toNat_ofNat_of_lt' fits,Place.seek_boundary valid.sound there]

theorem setPos_boundary (valid : Valid text s) {stop : Nat} (boundary : Boundary stop text)
    (fits : stop < UInt32.size) : (s.setPos (UInt32.ofNat stop)).pos = UInt32.ofNat stop :=
  congrArg UInt32.ofNat (setPos_offset valid boundary fits)

theorem spanStart_boundary (valid : Valid text s) {stop : Nat} (marked : s.tokenEnd = some stop) :
    Boundary (spanStart s stop) text := by
  unfold spanStart
  rcases Nat.le_total s.tokenStart stop with early | late
  · rw [Nat.min_eq_left early]; exact valid.startBoundary
  · rw [Nat.min_eq_right late]; exact valid.stopBoundary stop marked

-- Without a mark there is no token to give. With one the token ends at the mark, its
-- text is what stands there, and accepting it goes back to its end.
def Answers (text : List Char) (s : Source) : Prop :=
  (s.tokenEnd = none ∧ s.tokenSpan = .ok none ∧ s.tokenText = .ok none ∧ s.finishToken = .ok (none,s)) ∨
  ∃ stop span after before middle rest,
    s.tokenEnd = some stop ∧ span.reach = stop ∧ after.pos.toNat = stop ∧
    s.tokenSpan = .ok (some span) ∧ s.tokenText = .ok (some middle) ∧ s.finishToken = .ok (some span,after) ∧
    text = before ++ middle ++ rest ∧ span.start.toNat = width before ∧ span.length.toNat = width middle ∧
    span.stop = .ok after.pos

theorem Valid.answers (valid : Valid text s) (small : width text < UInt32.size) : Answers text s := by
  cases marked : s.tokenEnd with
  | none =>
      have absent := tokenSpan_unmarked marked
      exact .inl ⟨marked,absent,by rw [tokenText,absent]; rfl,finishToken_unmarked marked⟩
  | some stop =>
      have boundary := valid.stopBoundary stop marked
      have fits := valid.fits small marked
      have ordered := spanStart_le s stop
      obtain ⟨before,middle,rest,parts,low,high⟩ := (spanStart_boundary valid marked).between boundary ordered
      obtain ⟨startNumber,lengthNumber⟩ := Span.ofOffsets_numbers fits ordered
      have span := tokenSpan_marked valid small marked
      have slice := Span.slice_offsets before middle rest (by omega)
      rw [high,low,← parts] at slice
      have there := setPos_boundary valid boundary fits
      refine .inr ⟨stop,_,_,before,middle,rest,marked,Span.ofOffsets_reach fits ordered,?_,span,?_,
        finishToken_marked valid small marked,parts,?_,?_,?_⟩
      · rw [there,UInt32.toNat_ofNat_of_lt' fits]
      · rw [tokenText,span,Except.bind]
        dsimp only
        rw [valid.held]
        exact slice
      · omega
      · omega
      · rw [there]
        exact Span.stop_offsets fits ordered

end ContextScan.Source

namespace ContextScan.Session
open Text Source

def Valid (text : List Char) (s : Session) : Prop :=
  Source.Valid text s.current ∧ ∀ copy ∈ s.kept, Source.Valid text copy

variable {text : List Char} {s : Session}

theorem start_valid {first : Source} (valid : Source.Valid text first) : Valid text (start first) := by
  refine ⟨valid,?_⟩
  intro copy member
  rw [List.mem_singleton.mp member]
  exact valid

theorem Valid.at (valid : Valid text s) {current : Source} (next : Source.Valid text current) :
    Valid text {s with current := current} := ⟨next,valid.2⟩

theorem restored_valid (valid : Valid text s) (back : Nat) :
    Source.Valid text (s.kept.getD back s.current) := by
  rw [List.getD_eq_getElem?_getD]
  cases found : s.kept[back]? with
  | none => exact valid.1
  | some copy => exact valid.2 copy (List.mem_of_getElem? found)

theorem perform_unmarked (unmarked : s.current.tokenEnd = none) :
    s.perform .finishToken = .ok (s,.span none) := by
  rw [perform,finishToken_unmarked unmarked]
  rfl

theorem perform_marked (small : width text < UInt32.size) (valid : Source.Valid text s.current) {stop : Nat}
    (marked : s.current.tokenEnd = some stop) : s.perform .finishToken =
      .ok ({s with current := s.current.setPos (UInt32.ofNat stop)},
        .span (some (.ofOffsets (spanStart s.current stop) stop))) := by
  rw [perform,finishToken_marked valid small marked]
  rfl

theorem perform_valid (small : width text < UInt32.size) (valid : Valid text s) (request : Request) :
    ∃ next reply, s.perform request = .ok (next,reply) ∧ Valid text next := by
  cases request with
  | advance => exact ⟨_,_,rfl,valid.at (advance_valid valid.1)⟩
  | skip => exact ⟨_,_,rfl,valid.at (skip_valid valid.1)⟩
  | markEnd => exact ⟨_,_,rfl,valid.at (markEnd_valid valid.1)⟩
  | startToken => exact ⟨_,_,rfl,valid.at (startToken_valid valid.1)⟩
  | setPos offset => exact ⟨_,_,rfl,valid.at (setPos_valid valid.1 offset)⟩
  | finishToken =>
      cases marked : s.current.tokenEnd with
      | none => exact ⟨_,_,perform_unmarked marked,valid⟩
      | some stop => exact ⟨_,_,perform_marked small valid.1 marked,valid.at (setPos_valid valid.1 _)⟩
  | isEof => exact ⟨_,_,rfl,valid⟩
  | text => exact ⟨_,_,rfl,valid⟩
  | regions regions => exact ⟨_,_,rfl,valid.at (withRegions_valid valid.1 regions)⟩
  | save =>
      refine ⟨_,_,rfl,valid.1,?_⟩
      intro copy member
      rcases List.mem_cons.mp member with rfl | earlier
      · exact valid.1
      · exact valid.2 copy earlier
  | restore back => exact ⟨_,_,rfl,valid.at (restored_valid valid back)⟩
  | scan admissible => exact ⟨_,_,rfl,valid.at (scan_valid valid.1 admissible)⟩

theorem run_valid (small : width text < UInt32.size) (valid : Valid text s) (requests : List Request) :
    ∃ next, run s requests = .ok next ∧ Valid text next := by
  induction requests generalizing s with
  | nil => exact ⟨s,rfl,valid⟩
  | cons request rest ih =>
      obtain ⟨middle,reply,performed,kept⟩ := perform_valid small valid request
      obtain ⟨next,ran,reached⟩ := ih kept
      refine ⟨next,?_,reached⟩
      rw [run,performed]
      exact ran

theorem begun_valid {first : Source} (begins : first = .start text ∨ ∃ offset, first = .startAt text offset) :
    Valid text (start first) := by
  apply start_valid
  rcases begins with rfl | ⟨offset,rfl⟩
  · exact Source.start_valid text
  · exact startAt_valid text offset

-- No run of requests fails, and whatever it leads to is sound, with any regions.
theorem run_sound (text : List Char) (small : width text < UInt32.size) (first : Source)
    (begins : first = .start text ∨ ∃ offset, first = .startAt text offset) (requests : List Request) :
    ∃ session, run (start first) requests = .ok session ∧
      session.current.text = text ∧
      Boundary session.current.pos.toNat text ∧ Boundary session.current.tokenStart text ∧
      (∀ stop, session.current.tokenEnd = some stop →
        Boundary stop text ∧ stop ≤ session.current.pos.toNat) ∧
      session.current.tokenStart ≤ session.current.pos.toNat ∧ session.current.pos.toNat ≤ width text ∧
      (session.current.hasContent = false → session.current.tokenStart = session.current.pos.toNat) ∧
      Answers text session.current := by
  obtain ⟨session,ran,valid,_⟩ := run_valid small (begun_valid begins) requests
  have position := valid.pos small
  refine ⟨session,ran,valid.held,?_,valid.startBoundary,?_,?_,?_,?_,valid.answers small⟩
  · rw [position]; exact valid.boundary
  · intro stop marked
    rw [position]
    exact ⟨valid.stopBoundary stop marked,valid.stopWithin stop marked⟩
  · rw [position]; exact valid.startWithin
  · rw [position]; exact valid.within
  · rw [position]; exact valid.contentless

theorem run_sound_accented : width ['\u00e9',' '] < UInt32.size ∧
    (∃ session, run (start (.startAt ['\u00e9',' '] 1)) [.markEnd,.skip,.save,.skip,.advance,.restore,.finishToken] =
      .ok session ∧ Answers ['\u00e9',' '] session.current) := by
  have small : width ['\u00e9',' '] < UInt32.size := by decide
  obtain ⟨session,ran,_,_,_,_,_,_,_,answers⟩ := run_sound ['\u00e9',' '] small _ (.inr ⟨1,rfl⟩)
    [.markEnd,.skip,.save,.skip,.advance,.restore,.finishToken]
  exact ⟨small,session,ran,answers⟩

end ContextScan.Session
