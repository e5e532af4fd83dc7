import ContextScan.Proofs.Ready
import ContextScan.Proofs.TriviaGrammar

namespace ContextScan.Character

def isInline (c : Char) : Bool := isSpace c && c != '\n'

theorem isInline_solid {c : Char} (solid : isSpace c = false) : isInline c = false := by
  rw [isInline,solid,Bool.false_and]

end ContextScan.Character

namespace ContextScan
open Text TextCursor

theorem SkipsOver.source {s t : Source} {passed : List Char} (skips : SkipsOver passed s t) : t.place.offset = s.place.offset + width passed ∧
    t.regions = s.regions := by
  obtain ⟨here,calls⟩ := skips
  induction passed generalizing s with
  | nil => cases calls; exact ⟨rfl,rfl⟩
  | cons c passed ih =>
      cases calls with
      | skip present calls =>
          obtain ⟨⟨behind,left,offset⟩,_,_,_,_⟩ := s
          cases here
          obtain ⟨onward,regions⟩ := ih rfl calls
          refine ⟨?_,regions⟩
          rw [onward]
          exact Nat.add_assoc _ _ _

end ContextScan

namespace ContextScan.Source
open Text Trivia Recognizer TextCursor

structure OnLine (s : Source) (line : List Char) (front : Source) : Prop where
  skips : SkipsOver line s front
  inline : ∀ c ∈ line, Character.isInline c = true
  regionless : ∀ u, u <+: line → u ≠ line → ¬RegionSeen s.regions (s.place.offset + width u)

inductive LineStops : Source → LineEnd Source → Prop where
  | region : RegionSeen front.regions front.place.offset → LineStops front (.ends front)
  | closed : (Cursor.lookahead front).all (· == '}') = true → LineStops front (.ends front)
  | breaks : Cursor.lookahead front = some '\n' → ¬RegionSeen front.regions front.place.offset →
      LineStops front (.breaks front)
  | blocked : Cursor.lookahead front = some c → c ≠ '}' → Character.isSpace c = false →
      ¬RegionSeen front.regions front.place.offset → LineStops front (.blocked front)

theorem OnLine.refl (s : Source) : OnLine s [] s :=
  ⟨.refl s,fun c member => (by cases member),fun u short other => absurd (List.prefix_nil.mp short) other⟩

theorem lineEnd_stops (s : Source) : ∃ line front, OnLine s line front ∧ LineStops front (lineEnd s) := by
  fun_induction lineEnd s with
  | case1 s ended => exact ⟨[],s,.refl s,.closed (by simp [ended])⟩
  | case2 s c found _ ends =>
      refine ⟨[],s,.refl s,?_⟩
      rcases ends with rfl | region
      · exact .closed (by simp [found])
      · exact .region ((atRegionStart_seen s).mp region)
  | case3 s _ found unended =>
      have regionless := fun region => unended (.inr ((atRegionStart_seen s).mpr region))
      exact ⟨[],s,.refl s,.breaks found regionless⟩
  | case4 s c found _ unended feedless blank ih =>
      have regionless := fun region => unended (.inr ((atRegionStart_seen s).mpr region))
      obtain ⟨line,front,on,stops⟩ := ih
      have one := SkipsOver.source (.skip found (.refl (Cursor.skip s)))
      refine ⟨c :: line,front,⟨on.skips.skip found,?_,?_⟩,stops⟩
      · intro d member
        rcases List.mem_cons.mp member with rfl | later
        · simp [Character.isInline,blank,feedless]
        · exact on.inline d later
      · intro u short other
        rcases List.prefix_cons_iff.mp short with rfl | ⟨v,rfl,within⟩
        · exact regionless
        · have behind := on.regionless v within (fun same => other (same ▸ rfl))
          rw [one.1,one.2] at behind
          simpa only [width,Nat.add_assoc,Nat.add_zero] using behind
  | case5 s c found _ unended feedless solid =>
      have regionless := fun region => unended (.inr ((atRegionStart_seen s).mpr region))
      exact ⟨[],s,.refl s,.blocked found (fun brace => unended (.inl brace)) (by simpa using solid) regionless⟩

-- What holds a statement open behind a line feed and its trivia, and where the
-- trial stops for it. Only a slash makes the trial go on from there.
inductive Holds : Source → Source → Prop where
  | continued : Cursor.lookahead far = some c → Character.continuesStatement c = true → c ≠ '/' → Holds far far
  | lone : LoneSlash (ahead far) → Holds far (Cursor.skip far)
  | unclosed : Unclosed (ahead far) → SkipsOver (ahead far) far stopped → Holds far stopped

-- No statement goes on with it: it is the end of input, or it is neither white
-- space nor a continuation.
def Begins (rest : List Char) : Prop :=
  rest.head?.all (fun c => !Character.isSpace c && !Character.continuesStatement c) = true

instance (rest : List Char) : Decidable (Begins rest) := inferInstanceAs (Decidable (_ = true))

-- How the trial ends, by the cursor at the end of the line's white space and the
-- one behind the trivia of the lines after it.
inductive Concludes (s : Source) : Attempt Source → Prop where
  | region : OnLine s line front → RegionSeen s.regions front.place.offset → Concludes s (.accepted front)
  | closed : OnLine s line front → (Cursor.lookahead front).all (· == '}') = true → Concludes s (.accepted front)
  | blocked : OnLine s line front → ¬RegionSeen s.regions front.place.offset → Cursor.lookahead front = some c →
      c ≠ '}' → Character.isSpace c = false → Concludes s (.declined front)
  | ended : OnLine s line front → ¬RegionSeen s.regions front.place.offset → Cursor.lookahead front = some '\n' →
      SkipsOver gap (Cursor.skip front) far → Items gap (ahead far) → Begins (ahead far) →
      Concludes s (.accepted far)
  | held : OnLine s line front → ¬RegionSeen s.regions front.place.offset → Cursor.lookahead front = some '\n' →
      SkipsOver gap (Cursor.skip front) far → Items gap (ahead far) → Settled (ahead far) → Holds far stopped →
      Concludes s (.declined stopped)

theorem semicolon_concludes (s : Source) : Concludes (Cursor.markEnd s) (semicolon s) := by
  obtain ⟨line,front,on,stops⟩ := lineEnd_stops (Cursor.markEnd s)
  have regions := on.skips.source.2
  unfold semicolon
  generalize lineEnd (Cursor.markEnd s) = outcome at stops
  cases stops with
  | region region => exact .region on (regions ▸ region)
  | closed closed => exact .closed on closed
  | blocked found braceless solid regionless => exact .blocked on (regions ▸ regionless) found braceless solid
  | breaks feed regionless =>
      rw [regions] at regionless
      obtain ⟨gap,far,skips,items,stops⟩ := trivia_stops (Cursor.skip front)
      have settled := stops.settled
      dsimp only
      generalize trivia (Cursor.skip front) = outcome at stops
      cases stops with
      | lone lone => exact .held on regionless feed skips items settled (.lone lone)
      | unclosed unclosed rest => exact .held on regionless feed skips items settled (.unclosed unclosed rest)
      | solid spaceless slashless =>
          dsimp only
          cases found : Cursor.lookahead far with
          | none =>
              refine .ended on regionless feed skips items ?_
              simp [Begins,← lookahead_eq,found]
          | some c =>
              simp only [found,Option.any_some] at spaceless ⊢
              cases continues : Character.continuesStatement c with
              | true =>
                  refine .held on regionless feed skips items settled (.continued found continues ?_)
                  rintro rfl
                  exact slashless found
              | false =>
                  refine .ended on regionless feed skips items ?_
                  simp [Begins,← lookahead_eq,found,spaceless,continues]

def line (s : Source) : List Char := s.place.ahead.takeWhile Character.isInline
def beyond (s : Source) : List Char := s.place.ahead.dropWhile Character.isInline

structure BreaksOff (text gap next : List Char) : Prop where
  parts : text = '\n' :: (gap ++ next)
  items : Items gap next
  begins : Begins next

def RegionBefore (s : Source) (passed : List Char) : Prop :=
  passed <+: s.line ∧ RegionSeen s.regions (s.place.offset + width passed)

def Permits (s : Source) : Prop :=
  (∃ passed, RegionBefore s passed) ∨ s.beyond.head?.all (· == '}') = true ∨ ∃ gap next, BreaksOff s.beyond gap next

section
variable {s front far stopped : Source} {line gap next rest : List Char}

theorem regionBefore_exact {text passed : List Char} (valid : Valid text s) (small : width text < UInt32.size) :
    RegionBefore s passed ↔ passed <+: s.line ∧ RegionAt s.regions (s.place.offset + width passed) := by
  apply and_congr_right
  intro short
  have within := width_le (short.trans (List.takeWhile_prefix _))
  have whole := valid.whole
  exact regionSeen_exact (by omega)

theorem Begins.settled (begins : Begins rest) : Settled rest := by
  cases rest with
  | nil => exact settled_solid rfl (by decide)
  | cons c rest =>
      simp only [Begins,List.head?_cons,Option.all_some,Bool.and_eq_true,Bool.not_eq_true'] at begins
      refine settled_solid (by simpa using begins.1) ?_
      rintro slash
      cases slash
      exact absurd begins.2 (by decide)

theorem Holds.held (holds : Holds far stopped) : ¬Begins (ahead far) := by
  intro begins
  cases holds with
  | continued found continues _ => simp [Begins,← lookahead_eq,found,continues] at begins
  | lone lone => revert begins; simp [Begins,lone.slash]; decide
  | unclosed unclosed _ => revert begins; simp [Begins,unclosed.slash]; decide

theorem OnLine.within (on : OnLine s line front) : line <+: s.line := by
  rw [Source.line,show s.place.ahead = line ++ ahead front from on.skips.text,List.takeWhile_append_of_pos on.inline]
  exact List.prefix_append _ _

theorem OnLine.whole (on : OnLine s line front) (solid : (Cursor.lookahead front).any Character.isInline = false) :
    s.line = line ∧ s.beyond = ahead front := by
  rw [lookahead_eq] at solid
  rw [Source.line,beyond,show s.place.ahead = line ++ ahead front from on.skips.text,
    List.takeWhile_append_of_pos on.inline,List.dropWhile_append_of_pos on.inline]
  cases left : ahead front with
  | nil => simp
  | cons c rest =>
      have stays : ¬Character.isInline c = true := by simpa [left] using solid
      rw [List.takeWhile_cons_of_neg stays,List.dropWhile_cons_of_neg stays]
      simp

theorem OnLine.here (on : OnLine s line front) : front.place.offset = s.place.offset + width line := on.skips.source.1

theorem RegionBefore.early (on : OnLine s line front) (solid : (Cursor.lookahead front).any Character.isInline = false)
    (region : RegionBefore s gap) : gap = line ∧ RegionSeen s.regions front.place.offset := by
  obtain ⟨short,starts⟩ := region
  rw [(on.whole solid).1] at short
  by_cases same : gap = line
  · refine ⟨same,?_⟩
    rw [on.here,← same]
    exact starts
  · exact absurd starts (on.regionless gap short same)

theorem solid_outline {c : Char} (found : Cursor.lookahead front = some c) (solid : Character.isInline c = false) :
    (Cursor.lookahead front).any Character.isInline = false := by
  simpa [found] using solid

theorem feed_outline (feed : Cursor.lookahead front = some '\n') :
    (Cursor.lookahead front).any Character.isInline = false := solid_outline feed (by decide)

-- Neither a region nor the end of a block decides, so only a line feed may.
theorem OnLine.undecided {c : Char} (on : OnLine s line front) (regionless : ¬RegionSeen s.regions front.place.offset)
    (found : Cursor.lookahead front = some c) (braceless : c ≠ '}') (solid : Character.isInline c = false) :
    Permits s ↔ ∃ gap next, BreaksOff (ahead front) gap next := by
  have stays := solid_outline found solid
  rw [Permits,(on.whole stays).2,← lookahead_eq,found]
  constructor
  · rintro (⟨passed,region⟩ | closed | breaks)
    · exact absurd (region.early on stays).2 regionless
    · exact absurd (by simpa using closed) braceless
    · exact breaks
  · exact fun breaks => .inr (.inr breaks)

theorem closed_outline {found : Option Char} (closed : found.all (· == '}') = true) :
    found.any Character.isInline = false := by
  cases found with
  | none => rfl
  | some c =>
      have brace : c = '}' := by simpa using closed
      subst brace
      decide

theorem BreaksOff.unique {other : List Char} (feed : Cursor.lookahead front = some '\n')
    (skips : SkipsOver gap (Cursor.skip front) far) (items : Items gap (ahead far)) (settled : Settled (ahead far))
    (breaks : BreaksOff (ahead front) other next) : other = gap ∧ next = ahead far := by
  have parts := breaks.parts
  rw [(SkipsOver.skip feed skips).text,List.cons_append,List.cons.injEq] at parts
  exact items_unique breaks.items items breaks.begins.settled settled parts.2.symm

theorem Concludes.permits {outcome : Attempt Source} (concludes : Concludes s outcome) :
    outcome.isAccepted = true ↔ Permits s := by
  cases concludes with
  | @region line front on region =>
      rw [on.here] at region
      exact ⟨fun _ => .inl ⟨line,on.within,region⟩,fun _ => rfl⟩
  | closed on closed =>
      refine ⟨fun _ => .inr (.inl ?_),fun _ => rfl⟩
      rw [(on.whole (closed_outline closed)).2,← lookahead_eq]
      exact closed
  | blocked on regionless found braceless solid =>
      rw [on.undecided regionless found braceless (Character.isInline_solid solid)]
      refine ⟨fun taken => (by cases taken),?_⟩
      rintro ⟨gap,next,breaks⟩
      rw [lookahead_eq,breaks.parts] at found
      cases found
      cases solid
  | @ended line front gap far on regionless feed skips items begins =>
      rw [on.undecided regionless feed (by decide) (by decide)]
      exact ⟨fun _ => ⟨gap,ahead far,⟨(SkipsOver.skip feed skips).text,items,begins⟩⟩,fun _ => rfl⟩
  | held on regionless feed skips items settled holds =>
      rw [on.undecided regionless feed (by decide) (by decide)]
      refine ⟨fun taken => (by cases taken),?_⟩
      rintro ⟨gap,next,breaks⟩
      obtain ⟨_,rfl⟩ := breaks.unique feed skips items settled
      exact absurd breaks.begins holds.held

-- Where the cursor stands behind an empty token: at the first region start on the
-- line, else where the line is closed, else behind the trivia after its end.
theorem Concludes.stands {outcome : Attempt Source} (concludes : Concludes s outcome) (taken : outcome.isAccepted = true) :
    (∀ passed, RegionBefore s passed → (∀ u, u <+: passed → u ≠ passed → ¬RegionBefore s u) →
      outcome.cursor.place.offset = s.place.offset + width passed) ∧
    ((∀ passed, ¬RegionBefore s passed) → s.beyond.head?.all (· == '}') = true →
      outcome.cursor.place.offset = s.place.offset + width s.line) ∧
    ((∀ passed, ¬RegionBefore s passed) → ∀ gap next, BreaksOff s.beyond gap next →
      outcome.cursor.place.offset = s.place.offset + width s.line + 1 + width gap) := by
  cases concludes with
  | blocked => cases taken
  | held => cases taken
  | @region line front on region =>
      have here : RegionBefore s line := ⟨on.within,by rw [← on.here]; exact region⟩
      refine ⟨?_,fun regionless => absurd here (regionless line),fun regionless => absurd here (regionless line)⟩
      intro passed before first
      have same : passed = line := by
        rcases Nat.le_total passed.length line.length with shorter | longer
        · have short := List.prefix_of_prefix_length_le before.1 on.within shorter
          apply Classical.byContradiction
          intro other
          exact on.regionless passed short other before.2
        · have short := List.prefix_of_prefix_length_le on.within before.1 longer
          apply Classical.byContradiction
          intro other
          exact first line short (Ne.symm other) here
      rw [same]
      exact on.here
  | closed on closed =>
      obtain ⟨line,beyond⟩ := on.whole (closed_outline closed)
      refine ⟨?_,?_,?_⟩
      · intro passed before _
        rw [(before.early on (closed_outline closed)).1]
        exact on.here
      · intro _ _
        rw [line]
        exact on.here
      · intro _ gap next breaks
        rw [lookahead_eq,← beyond,breaks.parts] at closed
        cases closed
  | @ended line front gap far on regionless feed skips items begins =>
      obtain ⟨same,beyond⟩ := on.whole (feed_outline feed)
      refine ⟨?_,?_,?_⟩
      · intro passed before _
        exact absurd (before.early on (feed_outline feed)).2 regionless
      · intro _ closed
        rw [beyond,← lookahead_eq,feed] at closed
        cases closed
      · intro _ other next breaks
        rw [beyond] at breaks
        obtain ⟨rfl,_⟩ := breaks.unique feed skips items begins.settled
        have past := (SkipsOver.skip feed skips).source.1
        rw [on.here] at past
        rw [same]
        simpa [Attempt.cursor,width,Nat.add_assoc,show '\n'.utf8Size = 1 from rfl] using past

end

theorem semicolon_empty {text : List Char} {s : Source} (small : width text < UInt32.size) (ready : Ready text s) :
    (semicolon s).cursor.tokenSpan = .ok (some ⟨UInt32.ofNat s.place.offset,0⟩) := by
  obtain ⟨_,start,marked,onward⟩ :=
    skips_start (s := s.markEnd) ready.contentless ready.tokenStart (semicolon_skips s)
  have level : spanStart (semicolon s).cursor s.place.offset = s.place.offset := by
    rw [spanStart,start]
    exact Nat.min_eq_right onward
  have valid : Valid text (semicolon s).cursor := attempt_valid ready.valid .semicolon
  rw [tokenSpan_marked valid small marked,level,Span.ofOffsets,Nat.sub_self]
  rfl

-- The terminator is permitted by a region start on the rest of the line, by the
-- end of the input or of a block behind it, or by a line feed there with trivia
-- and the begin of another statement behind it. It is empty and at the cursor.
theorem semicolon_exact (before after : List Char) (regions : List Region)
    (small : width (before ++ after) < UInt32.size) :
    let s := (startAt (before ++ after) (UInt32.ofNat (width before))).withRegions regions
    let line := after.takeWhile Character.isInline
    let beyond := after.dropWhile Character.isInline
    let region := fun passed => passed <+: line ∧ RegionAt regions (width before + width passed)
    let closed := beyond.head?.all (· == '}') = true
    ((semicolon s).isAccepted = true ↔
      (∃ passed, region passed) ∨ closed ∨ ∃ gap next, BreaksOff beyond gap next) ∧
    ((semicolon s).isAccepted = true →
      (semicolon s).cursor.tokenSpan = .ok (some ⟨UInt32.ofNat (width before),0⟩) ∧
      (∀ passed, region passed → (∀ u, u <+: passed → u ≠ passed → ¬region u) →
        (semicolon s).cursor.pos.toNat = width before + width passed) ∧
      ((∀ passed, ¬region passed) → closed →
        (semicolon s).cursor.pos.toNat = width before + width line) ∧
      ((∀ passed, ¬region passed) → ∀ gap next, BreaksOff beyond gap next →
        (semicolon s).cursor.pos.toNat = width before + width line + 1 + width gap)) := by
  intro s line beyond region closed
  have begun : s = (fresh ⟨before.reverse,after,width before⟩).withRegions regions := by
    rw [← startAt_boundary after (width_lead small)]
  have ready : Ready (before ++ after) s := startAt_ready _ _ _
  have seen : ∀ passed, RegionBefore (Cursor.markEnd s) passed ↔ region passed := by
    intro passed
    have marked : Valid (before ++ after) (Cursor.markEnd s) := markEnd_valid ready.valid
    rw [regionBefore_exact marked small,begun]
    rfl
  have concludes := semicolon_concludes s
  have permits : Permits (Cursor.markEnd s) ↔ (∃ passed, region passed) ∨ closed ∨ ∃ gap next, BreaksOff beyond gap next := by
    simp only [Permits,seen]
    rw [begun]
    rfl
  refine ⟨concludes.permits.trans permits,?_⟩
  intro taken
  have pos : (semicolon s).cursor.pos.toNat = (semicolon s).cursor.place.offset :=
    (attempt_valid ready.valid .semicolon).pos small
  have stands := concludes.stands taken
  have span := semicolon_empty small ready
  simp only [seen] at stands
  rw [pos]
  rw [begun] at stands span ⊢
  exact ⟨span,stands⟩

theorem semicolon_exact_commented :
    let s := (startAt ['a',' ','\n','/','/','x','\n',' ','y'] 1).withRegions [⟨0,1⟩]
    width ['a',' ','\n','/','/','x','\n',' ','y'] < UInt32.size ∧ (semicolon s).isAccepted = true ∧
      (semicolon s).cursor.tokenSpan = .ok (some ⟨1,0⟩) ∧ (semicolon s).cursor.pos.toNat = 8 := by
  intro s
  have small : width (['a'] ++ [' ','\n','/','/','x','\n',' ','y']) < UInt32.size := by decide
  have items : Items (['/','/','x'] ++ (['\n'] ++ ([' '] ++ []))) ['y'] :=
    .cons (.line (by decide) (by decide)) (.cons (.space (by decide)) (.cons (.space (by decide)) .nil))
  have breaks : BreaksOff ['\n','/','/','x','\n',' ','y'] ['/','/','x','\n',' '] ['y'] := ⟨rfl,items,by decide⟩
  obtain ⟨permits,stands⟩ := semicolon_exact ['a'] [' ','\n','/','/','x','\n',' ','y'] [⟨0,1⟩] small
  have taken : (semicolon s).isAccepted = true := permits.mpr (.inr (.inr ⟨_,_,breaks⟩))
  obtain ⟨span,_,_,pos⟩ := stands taken
  refine ⟨small,taken,span,pos ?_ _ _ breaks⟩
  rintro passed ⟨_,region⟩
  exact regionless_past (by decide) (Nat.le_add_right (width ['a']) _) region

-- A region start is asked for where characters begin, so one in the second byte of
-- a no-break space goes by.
theorem semicolon_region_inside :
    ¬∀ (before after : List Char) (regions : List Region), width (before ++ after) < UInt32.size →
      (∃ offset, width before ≤ offset ∧ offset ≤ width before + width (after.takeWhile Character.isInline) ∧
        RegionAt regions offset) →
      (semicolon ((startAt (before ++ after) (UInt32.ofNat (width before))).withRegions regions)).isAccepted = true := by
  intro permits
  have within : ∃ offset, width [] ≤ offset ∧
      offset ≤ width [] + width (['\u00a0','x'].takeWhile Character.isInline) ∧ RegionAt [⟨1,2⟩] offset :=
    ⟨1,by decide,by decide,⟨1,2⟩,List.mem_singleton.mpr rfl,by decide⟩
  have taken := permits [] ['\u00a0','x'] [⟨1,2⟩] (by decide) within
  revert taken
  decide +kernel

end ContextScan.Source
