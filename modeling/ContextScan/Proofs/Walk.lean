import ContextScan.Host
import ContextScan.Proofs.Ready

namespace ContextScan.Host
open Text Source

variable {text : List Char} {s : Source}

structure Step.Lawful (text : List Char) (round : Step) : Prop where
  spanned : round.span.isSome = round.token.isSome
  startBoundary : ∀ span, round.span = some span → Boundary span.start.toNat text
  stopBoundary : ∀ span, round.span = some span → Boundary span.reach text
  begun : ∀ span, round.span = some span → round.began.toNat ≤ span.start.toNat
  empty : ∀ span, round.span = some span → span.isEmpty = true → round.token = some .semicolon

def Step.Within (round : Step) (limit : Nat) : Prop := ∀ span, round.span = some span → span.reach ≤ limit

def Step.Precedes (earlier later : Step) : Prop :=
  ∀ a b, earlier.span = some a → later.span = some b → a.reach ≤ b.start.toNat

theorem turn_onward (small : width text < UInt32.size) (ready : Ready text s) (more : s.place.ahead ≠ []) :
    ∃ next, turn false s = .ok (.onward next) ∧ Ready text next ∧ next.place = s.place.next := by
  obtain ⟨c,rest,ahead⟩ := List.exists_cons_of_ne_nil more
  have offset : s.place.next.offset = s.place.offset + c.utf8Size := by
    obtain ⟨⟨behind,left,n⟩,_,_,_,_⟩ := s
    cases ahead
    rfl
  have same : s.place.next.text = text := (Place.next_text s.place).trans ready.valid.held
  have boundary : Boundary s.place.next.offset text := by
    rw [← same]
    exact ready.valid.sound.next.boundary
  have inside := boundary.le_width
  have wide : (UInt32.ofNat c.utf8Size).toNat = c.utf8Size := UInt32.toNat_ofNat_of_lt' (by omega)
  have here := ready.valid.pos small
  have room : s.pos.toNat + (UInt32.ofNat c.utf8Size).toNat < UInt32.size := by omega
  obtain ⟨sum,number⟩ := Offset.add_ok room
  have target : s.pos + UInt32.ofNat c.utf8Size = UInt32.ofNat s.place.next.offset := by
    apply UInt32.toNat_inj.mp
    rw [number,here,wide,offset,UInt32.toNat_ofNat_of_lt' (by omega)]
  have sought := setPos_ready ready.valid (UInt32.ofNat s.place.next.offset)
  refine ⟨s.setPos (UInt32.ofNat s.place.next.offset),?_,sought,?_⟩
  · have found : s.lookahead = some c := by rw [lookahead,ahead,List.head?_cons]
    simp only [turn,found,stepOver,sum,target,Except.map,Bool.false_eq_true,if_false]
  · apply sought.valid.sound.unique ready.valid.sound.next
    · exact sought.valid.held.trans same.symm
    · exact setPos_offset ready.valid boundary (by omega)

-- A round that began at the offset comes to the end of the text, or leaves a
-- cursor further on that has the round's own token behind it.
inductive Leads (text : List Char) (offset : Nat) (round : Step) : Turn → Prop where
  | done : Ready text last → last.place.ahead = [] → Leads text offset round (.done last)
  | onward : Ready text next → offset < next.place.offset → round.Within next.place.offset →
      Leads text offset round (.onward next)

theorem turn_leads (small : width text < UInt32.size) (ready : Ready text s) {round : Step}
    (within : round.Within s.place.offset) :
    ∃ next, turn false s = .ok next ∧ Leads text s.place.offset round next := by
  by_cases ended : s.place.ahead = []
  · exact ⟨.done s,by simp [turn,lookahead,ended],.done ready ended⟩
  · obtain ⟨next,turned,kept,place⟩ := turn_onward small ready ended
    have further := Place.offset_lt_next ended
    rw [← place] at further
    exact ⟨_,turned,.onward kept further (fun span found => Nat.le_trans (within span found) (Nat.le_of_lt further))⟩

theorem step_missed {admissible : TokenSet} (ready : Ready text s) (missed : (scan admissible s).token = none) :
    step admissible s = (turn false s).map (fun next => (⟨s.pos,none,s.pos,none,none⟩,next)) := by
  have same := Dispatch.scan_leaves admissible s missed
  unfold step
  dsimp only
  rw [same,missed,finishToken_unmarked ready.unmarked]
  simp only [bind,Except.bind,pure,Except.pure,Option.isSome_none,Bool.false_and]
  cases turn false s <;> rfl

theorem step_taken {admissible : TokenSet} {token : Token} {after : Source} {stop : Nat}
    (small : width text < UInt32.size) (ready : Ready text s) (taken : (scan admissible s).token = some token)
    (left : (scan admissible s).cursor = after) (marked : after.tokenEnd = some stop) : ∃ middle,
    step admissible s = (turn (decide (spanStart after stop < stop)) (after.setPos (UInt32.ofNat stop))).map
      (fun next => (⟨s.pos,some token,after.pos,some (.ofOffsets (spanStart after stop) stop),some middle⟩,next)) := by
  have valid : Valid text after := by
    rw [← left]
    exact scan_valid ready.valid admissible
  obtain ⟨middle,slice⟩ := marked_slice valid small marked
  have ordered := spanStart_le after stop
  have filled : (!(Span.ofOffsets (spanStart after stop) stop).isEmpty) = decide (spanStart after stop < stop) := by
    rw [Span.ofOffsets_empty (valid.fits small marked) ordered,← decide_not,decide_eq_decide]
    omega
  refine ⟨middle,?_⟩
  unfold step
  dsimp only
  rw [taken,left,finishToken_marked valid small marked,show s.text = text from ready.valid.held]
  simp only [bind,Except.bind,slice,Option.isSome_some,Option.any_some,filled,Bool.true_and]
  cases turn (decide (spanStart after stop < stop)) (after.setPos (UInt32.ofNat stop)) <;> rfl

theorem missed_lawful (began seen : UInt32) : (Step.mk began none seen none none).Lawful text := by
  refine ⟨rfl,?_,?_,?_,?_⟩
  all_goals intro span found; cases found

theorem taken_lawful {after : Source} {token : Token} {stop : Nat} (characters : Option (List Char))
    (small : width text < UInt32.size) (ready : Ready text s) (valid : Valid text after)
    (marked : after.tokenEnd = some stop) (behind : s.place.offset ≤ spanStart after stop)
    (filled : token = .semicolon ∨ spanStart after stop < stop) :
    (Step.mk s.pos (some token) after.pos (some (.ofOffsets (spanStart after stop) stop)) characters).Lawful text := by
  have fits := valid.fits small marked
  have ordered := spanStart_le after stop
  have start := (Span.ofOffsets_numbers fits ordered).1
  refine ⟨rfl,?_,?_,?_,?_⟩
  · intro span found
    cases found
    rw [start]
    exact spanStart_boundary valid marked
  · intro span found
    cases found
    rw [Span.ofOffsets_reach fits ordered]
    exact valid.stopBoundary stop marked
  · intro span found
    cases found
    rw [start]
    exact Nat.le_trans (Nat.le_of_eq (ready.valid.pos small)) behind
  · intro span found empty
    cases found
    rw [Span.ofOffsets_empty fits ordered,decide_eq_true_iff] at empty
    rcases filled with rfl | apart
    · rfl
    · omega

theorem step_leads (small : width text < UInt32.size) (ready : Ready text s) (admissible : TokenSet) :
    ∃ first next, step admissible s = .ok (first,next) ∧ first.Lawful text ∧ first.began = s.pos ∧
      Leads text s.place.offset first next := by
  cases found : (scan admissible s).token with
  | none =>
      have stepped := step_missed ready found
      have within : (Step.mk s.pos none s.pos none none).Within s.place.offset := fun span absent => by cases absent
      obtain ⟨next,turned,leads⟩ := turn_leads small ready within
      rw [turned] at stepped
      exact ⟨_,_,stepped,missed_lawful _ _,rfl,leads⟩
  | some token =>
      have took := accepted_took (scan_accepted found)
      have valid := scan_valid ready.valid admissible
      generalize left : (scan admissible s).cursor = after at took valid
      obtain ⟨stop,marked,behind,filled⟩ := took_span ready took
      obtain ⟨middle,stepped⟩ := step_taken small ready found left marked
      have lawful := taken_lawful (some middle) small ready valid marked behind (filled.imp And.left id)
      have resumed := setPos_ready valid (UInt32.ofNat stop)
      have there := setPos_offset valid (valid.stopBoundary stop marked) (valid.fits small marked)
      have within : (Step.mk s.pos (some token) after.pos (some (.ofOffsets (spanStart after stop) stop))
          (some middle)).Within (after.setPos (UInt32.ofNat stop)).place.offset := by
        intro span found
        cases found
        exact Nat.le_of_eq ((Span.ofOffsets_reach (valid.fits small marked) (spanStart_le after stop)).trans there.symm)
      rcases filled with ⟨_,rfl⟩ | apart
      · -- An empty token at the cursor: the host steps over a character from there.
        have empty : ¬spanStart after s.place.offset < s.place.offset := by omega
        obtain ⟨next,turned,leads⟩ := turn_leads small resumed within
        rw [decide_eq_false empty,turned] at stepped
        rw [there] at leads
        exact ⟨_,_,stepped,lawful,rfl,leads⟩
      · rw [decide_eq_true apart] at stepped
        exact ⟨_,_,stepped,lawful,rfl,.onward resumed (by omega) within⟩

inductive Walked : List TokenSet → Source → List Step → Source → Prop where
  | done : step (sets.headD .empty) here = .ok (last,.done final) → Walked sets here [last] final
  | onward : step (sets.headD .empty) here = .ok (first,.onward next) → Walked (rotate sets) next rest final →
      Walked sets here (first :: rest) final

theorem Walked.walkFor_eq {steps : List Step} {final : Source} {sets : List TokenSet} {rounds : Nat}
    (walked : Walked sets s steps final) (enough : steps.length ≤ rounds) :
    walkFor rounds sets s = .ok (.ended steps final) := by
  induction walked generalizing rounds with
  | done stepped =>
      cases rounds with
      | zero => simp at enough
      | succ rounds =>
          rw [walkFor,stepped]
          rfl
  | onward stepped _ ih =>
      cases rounds with
      | zero => simp at enough
      | succ rounds =>
          have rest := ih (Nat.le_of_succ_le_succ enough)
          rw [walkFor,stepped]
          simp only [bind,Except.bind,rest,Except.map,Walk.after]

-- What is ahead gets shorter by each round but the last.
theorem walked_ends (small : width text < UInt32.size) (ready : Ready text s) (sets : List TokenSet) :
    ∃ steps final, Walked sets s steps final ∧ steps.length ≤ s.place.ahead.length + 1 := by
  induction left : s.place.ahead.length using Nat.strongRecOn generalizing s sets with
  | ind n ih =>
      obtain ⟨first,next,stepped,_,_,leads⟩ := step_leads small ready (sets.headD .empty)
      cases leads with
      | done => exact ⟨_,_,.done stepped,Nat.le_add_left 1 n⟩
      | onward kept further _ =>
          have same := ready.valid.held.trans kept.valid.held.symm
          have shorter := Place.ahead_shorter ready.valid.sound kept.valid.sound same further
          obtain ⟨rest,final,walked,few⟩ := ih _ (by omega) kept (rotate sets) rfl
          refine ⟨_,final,.onward stepped walked,?_⟩
          rw [List.length_cons]
          omega

theorem Walked.orderly {steps : List Step} {final : Source} {sets : List TokenSet}
    (small : width text < UInt32.size) (ready : Ready text s) (walked : Walked sets s steps final) :
    Ready text final ∧ final.place.ahead = [] ∧
      (∀ round ∈ steps, round.Lawful text ∧ s.place.offset ≤ round.began.toNat) ∧ steps.Pairwise Step.Precedes := by
  induction walked with
  | @done s last final sets stepped =>
      obtain ⟨_,_,again,lawful,began,leads⟩ := step_leads small ready (sets.headD .empty)
      cases stepped.symm.trans again
      cases leads with
      | done kept ended =>
          refine ⟨kept,ended,?_,List.pairwise_singleton _ _⟩
          intro round member
          rw [List.mem_singleton.mp member,began]
          exact ⟨lawful,Nat.le_of_eq (ready.valid.pos small).symm⟩
  | @onward s first next sets rest final stepped _ ih =>
      obtain ⟨_,_,again,lawful,began,leads⟩ := step_leads small ready (sets.headD .empty)
      cases stepped.symm.trans again
      cases leads with
      | onward kept further within =>
          obtain ⟨settled,ended,each,ordered⟩ := ih kept
          refine ⟨settled,ended,?_,List.pairwise_cons.mpr ⟨?_,ordered⟩⟩
          · intro round member
            rcases List.mem_cons.mp member with rfl | later
            · rw [began]
              exact ⟨lawful,Nat.le_of_eq (ready.valid.pos small).symm⟩
            · obtain ⟨fine,behind⟩ := each round later
              exact ⟨fine,Nat.le_trans (Nat.le_of_lt further) behind⟩
          · intro later member a b ours theirs
            obtain ⟨fine,behind⟩ := each later member
            calc
              a.reach ≤ next.place.offset := within a ours
              _ ≤ later.began.toNat := behind
              _ ≤ b.start.toNat := fine.begun b theirs

-- However often the host asks and whatever it admits, it comes to the end of the
-- text within one round for each character ahead and one more, and what it took
-- on the way lies in order.
theorem walk_orderly (text : List Char) (small : width text < UInt32.size) (offset : UInt32)
    (regions : List Region) (sets : List TokenSet) :
    let s := (startAt text offset).withRegions regions
    ∃ steps last, Walked sets s steps last ∧ walk sets s = .ok (.ended steps last) ∧
      (∀ rounds, steps.length ≤ rounds → walkFor rounds sets s = .ok (.ended steps last)) ∧
      steps.length ≤ s.place.ahead.length + 1 ∧
      last.lookahead = none ∧ last.pos.toNat = width text ∧
      (∀ round ∈ steps, round.Lawful text ∧ s.pos.toNat ≤ round.began.toNat) ∧
      steps.Pairwise Step.Precedes := by
  intro s
  have ready := startAt_ready text offset regions
  obtain ⟨steps,last,walked,few⟩ := walked_ends small ready sets
  obtain ⟨kept,ended,each,ordered⟩ := walked.orderly small ready
  have whole : last.place.offset = width text := by
    have held := kept.valid.held
    rw [show last.text = last.place.behind.reverse by simp [Source.text,Place.text,ended]] at held
    rw [← held,width_reverse]
    exact kept.valid.sound
  refine ⟨steps,last,walked,walked.walkFor_eq few,fun _ => walked.walkFor_eq,few,?_,?_,?_,ordered⟩
  · rw [lookahead,ended,List.head?_nil]
  · rw [kept.valid.pos small,whole]
  · rw [ready.valid.pos small]
    exact each

theorem walk_orderly_accented :
    width ['\n','\u00e9','?'] < UInt32.size ∧
    ∃ steps last, Walked [⟨1⟩,⟨4⟩] ((startAt ['\n','\u00e9','?'] 0).withRegions []) steps last ∧
      walk [⟨1⟩,⟨4⟩] ((startAt ['\n','\u00e9','?'] 0).withRegions []) = .ok (.ended steps last) ∧
      steps.length ≤ 4 ∧ last.lookahead = none ∧ (∀ round ∈ steps, round.Lawful ['\n','\u00e9','?']) ∧
      steps.Pairwise Step.Precedes := by
  have small : width ['\n','\u00e9','?'] < UInt32.size := by decide
  obtain ⟨steps,last,walked,run,_,few,ended,_,each,ordered⟩ :=
    walk_orderly ['\n','\u00e9','?'] small 0 [] [⟨1⟩,⟨4⟩]
  exact ⟨small,steps,last,walked,run,few,ended,fun round member => (each round member).1,ordered⟩

end ContextScan.Host
