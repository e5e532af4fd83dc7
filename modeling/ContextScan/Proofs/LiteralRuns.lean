import ContextScan.Proofs.CodePoints
import ContextScan.Proofs.Walk

namespace ContextScan.Literal

variable {kind : Literal} {text : List Char} {i a b k : Nat}

theorem run_exact (kind : Literal) (cs : List Char) : kind.run cs ≤ cs.length ∧
    (∀ n < kind.run cs, kind.stops (cs.drop n) = false) ∧ kind.stops (cs.drop (kind.run cs)) = true := by
  induction cs with
  | nil => exact ⟨Nat.le_refl _,fun n short => absurd short (Nat.not_lt_zero n),stops_nil kind⟩
  | cons c cs ih =>
      obtain ⟨inside,literal,ended⟩ := ih
      cases found : kind.stops (c :: cs) with
      | true =>
          rw [run_stopped found]
          exact ⟨Nat.zero_le _,fun n short => absurd short (Nat.not_lt_zero n),found⟩
      | false =>
          rw [run_passed found]
          refine ⟨Nat.succ_le_succ inside,?_,ended⟩
          intro n short
          cases n with
          | zero => exact found
          | succ n => exact literal n (Nat.lt_of_succ_lt_succ short)

-- Literal text between two characters of a text that can be made longer at
-- neither end. It may be cut off where the host began.
structure Maximal (kind : Literal) (text : List Char) (begin a b : Nat) : Prop where
  begun : begin ≤ a
  filled : a < b
  inside : b ≤ text.length
  literal : ∀ k, a ≤ k → k < b → kind.stops (text.drop k) = false
  left : a = begin ∨ kind.stops (text.drop (a - 1)) = true
  right : kind.stops (text.drop b) = true

theorem maximal_run {begin : Nat} (begun : begin ≤ a) (inside : a ≤ text.length)
    (filled : 0 < kind.run (text.drop a)) (left : a = begin ∨ kind.stops (text.drop (a - 1)) = true) :
    kind.Maximal text begin a (a + kind.run (text.drop a)) := by
  obtain ⟨short,literal,ended⟩ := run_exact kind (text.drop a)
  rw [List.length_drop] at short
  rw [List.drop_drop] at ended
  refine ⟨begun,by omega,by omega,?_,left,ended⟩
  intro k reached before
  have here := literal (k - a) (by omega)
  rwa [List.drop_drop,show a + (k - a) = k by omega] at here

theorem run_pos (inside : i < text.length) (literal : kind.stops (text.drop i) = false) :
    0 < kind.run (text.drop i) := by
  rw [List.drop_eq_getElem_cons inside] at literal ⊢
  rw [run_passed literal]
  exact Nat.succ_pos _

theorem maximal_passed (stopped : kind.stops (text.drop i) = true) :
    kind.Maximal text i a b ↔ kind.Maximal text (i + 1) a b := by
  constructor
  · rintro ⟨begun,filled,inside,literal,left,right⟩
    have behind : a ≠ i := by
      rintro rfl
      rw [literal a (Nat.le_refl a) filled] at stopped
      cases stopped
    exact ⟨by omega,filled,inside,literal,.inr (left.resolve_left behind),right⟩
  · rintro ⟨begun,filled,inside,literal,left,right⟩
    refine ⟨by omega,filled,inside,literal,.inr ?_,right⟩
    rcases left with rfl | stops
    · exact stopped
    · exact stops

theorem Maximal.stopped {begin : Nat} (maximal : kind.Maximal text begin a b)
    (stops : kind.stops (text.drop k) = true) : k < a ∨ b ≤ k := by
  rcases Nat.lt_or_ge k a with before | reached
  · exact .inl before
  · rcases Nat.lt_or_ge k b with within | after
    · rw [maximal.literal k reached within] at stops
      cases stops
    · exact .inr after

theorem maximal_taken (inside : i ≤ text.length) (filled : 0 < kind.run (text.drop i)) :
    kind.Maximal text i a b ↔ (a = i ∧ b = i + kind.run (text.drop i)) ∨
      kind.Maximal text (i + kind.run (text.drop i)) a b := by
  have first := maximal_run (Nat.le_refl i) inside filled (.inl rfl)
  constructor
  · intro maximal
    rcases maximal.left with rfl | stops
    · have one := maximal.stopped first.right
      have two := first.stopped maximal.right
      have filled := maximal.filled
      exact .inl ⟨rfl,by omega⟩
    · have apart := first.stopped stops
      have filled := maximal.filled
      rcases apart with before | after
      · -- Nothing lies in front of where the host began.
        have begun := maximal.begun
        have one := maximal.stopped first.right
        have two := first.stopped maximal.right
        exact .inl ⟨by omega,by omega⟩
      · exact .inr ⟨by omega,maximal.filled,maximal.inside,maximal.literal,.inr stops,maximal.right⟩
  · rintro (⟨rfl,rfl⟩ | maximal)
    · exact first
    · have begun := maximal.begun
      have one := maximal.stopped first.right
      have stops := maximal.left.resolve_left (by have := maximal.filled; omega)
      exact ⟨by omega,maximal.filled,maximal.inside,maximal.literal,.inr stops,maximal.right⟩

theorem maximal_exists {begin : Nat} (begun : begin ≤ k) (inside : k < text.length)
    (literal : kind.stops (text.drop k) = false) : ∃ a b, kind.Maximal text begin a b ∧ a ≤ k ∧ k < b := by
  induction begun with
  | refl =>
      have filled := run_pos inside literal
      exact ⟨begin,_,maximal_run (Nat.le_refl _) (Nat.le_of_lt inside) filled (.inl rfl),Nat.le_refl _,
        Nat.lt_add_of_pos_right filled⟩
  | @step k begun ih =>
      cases before : kind.stops (text.drop k) with
      | true =>
          have filled := run_pos inside literal
          exact ⟨k + 1,_,maximal_run (Nat.le_succ_of_le begun) (Nat.le_of_lt inside) filled (.inr before),
            Nat.le_refl _,Nat.lt_add_of_pos_right filled⟩
      | false =>
          obtain ⟨a,b,maximal,reached,after⟩ := ih (Nat.lt_of_succ_lt inside) before
          have further : b ≠ k + 1 := by
            rintro rfl
            rw [maximal.right] at literal
            cases literal
          exact ⟨a,b,maximal,Nat.le_succ_of_le reached,by omega⟩

end ContextScan.Literal

namespace ContextScan.Host
open Text Source TextCursor CodePoints

variable {kind : Literal} {text : List Char} {i : Nat} {s : Source}

theorem byteOffset_mono {m n : Nat} (ordered : m ≤ n) (inside : n ≤ text.length) :
    byteOffset text m ≤ byteOffset text n := by
  rcases Nat.lt_or_eq_of_le ordered with before | rfl
  · exact Nat.le_of_lt (byteOffset_lt before inside)
  · exact Nat.le_refl _

structure Reads (text : List Char) (i : Nat) (s : Source) : Prop where
  ready : Ready text s
  ahead : s.place.ahead = text.drop i
  offset : s.place.offset = byteOffset text i
  inside : i ≤ text.length

theorem reads_at (ready : Ready text s) (offset : s.place.offset = byteOffset text i) (inside : i ≤ text.length) :
    Reads text i s := by
  have parts : s.place.behind.reverse ++ s.place.ahead = text.take i ++ text.drop i := by
    rw [List.take_append_drop]
    exact ready.valid.held
  have level : width s.place.behind.reverse = width (text.take i) := by
    rw [width_reverse,← show s.place.offset = width s.place.behind from ready.valid.sound]
    exact offset
  exact ⟨ready,(split_unique parts level).2,offset,inside⟩

theorem byteOffset_add (text : List Char) (i n : Nat) :
    byteOffset text (i + n) = byteOffset text i + width ((text.drop i).take n) := by
  simp only [byteOffset]
  rw [← width_append,List.take_add]

def runSpan (text : List Char) (a b : Nat) : Span := .ofOffsets (byteOffset text a) (byteOffset text b)

inductive Reaches (kind : Literal) (text : List Char) (i : Nat) : Option Span → Turn → Prop where
  | ended : i = text.length → Reaches kind text i none (.done last)
  | passed : i < text.length → kind.stops (text.drop i) = true → Reads text (i + 1) next →
      Reaches kind text i none (.onward next)
  | taken : 0 < kind.run (text.drop i) → Reads text (i + kind.run (text.drop i)) next →
      Reaches kind text i (some (runSpan text i (i + kind.run (text.drop i)))) (.onward next)

theorem step_passed (small : width text < UInt32.size) (reads : Reads text i s)
    (stopped : kind.stops (text.drop i) = true) : ∃ first next,
      step (.single kind.token) s = .ok (first,next) ∧ Reaches kind text i first.span next ∧
      first.token = first.span.map (fun _ => kind.token) := by
  obtain ⟨_,_,missed,_⟩ := literal_alone kind s
  rw [show ahead s = text.drop i from reads.ahead,Literal.run_stopped stopped,if_neg (Nat.lt_irrefl 0)] at missed
  have stepped := step_missed reads.ready missed
  by_cases ended : s.place.ahead = []
  · have turned : turn false s = .ok (.done s) := by simp [turn,lookahead,ended]
    rw [turned] at stepped
    have short : text.length ≤ i := by
      rw [reads.ahead] at ended
      exact List.drop_eq_nil_iff.mp ended
    exact ⟨_,_,stepped,.ended (Nat.le_antisymm reads.inside short),rfl⟩
  · obtain ⟨next,turned,kept,place⟩ := turn_onward small reads.ready ended
    rw [turned] at stepped
    have inside : i < text.length := by
      rw [reads.ahead] at ended
      exact Nat.lt_of_not_le (fun short => ended (List.drop_eq_nil_iff.mpr short))
    have offset : next.place.offset = byteOffset text (i + 1) := by
      rw [place,byteOffset_succ (List.drop_eq_getElem_cons inside),← reads.offset]
      have ahead := reads.ahead
      rw [List.drop_eq_getElem_cons inside] at ahead
      obtain ⟨⟨behind,left,n⟩,_,_,_,_⟩ := s
      cases ahead
      rfl
    exact ⟨_,_,stepped,.passed inside stopped (reads_at kept offset inside),rfl⟩

theorem step_filled (small : width text < UInt32.size) (reads : Reads text i s)
    (filled : 0 < kind.run (text.drop i)) : ∃ first next,
      step (.single kind.token) s = .ok (first,next) ∧ Reaches kind text i first.span next ∧
      first.token = first.span.map (fun _ => kind.token) := by
  have inside := (Literal.run_exact kind (text.drop i)).1
  rw [List.length_drop] at inside
  obtain ⟨stopped,made,taken,left⟩ := literal_alone kind s
  obtain ⟨start,marked⟩ := literal_marks reads.ready made
  rw [show ahead s = text.drop i from reads.ahead,if_pos filled] at taken left
  rw [reads.ahead,reads.offset,← byteOffset_add] at marked
  rw [reads.offset] at start
  have further : byteOffset text i < byteOffset text (i + kind.run (text.drop i)) := by
    apply byteOffset_lt
    · omega
    · have := reads.inside
      omega
  have starts : spanStart (kind.leave stopped) (byteOffset text (i + kind.run (text.drop i))) = byteOffset text i := by
    rw [spanStart,start]
    exact Nat.min_eq_left (Nat.le_of_lt further)
  have valid : Valid text (kind.leave stopped) := by
    rw [← left]
    exact scan_valid reads.ready.valid _
  obtain ⟨middle,stepped⟩ := step_taken small reads.ready taken left marked
  rw [starts,decide_eq_true further] at stepped
  have there := setPos_offset valid (valid.stopBoundary _ marked) (valid.fits small marked)
  have resumed := reads_at (setPos_ready valid _) there (by have := reads.inside; omega)
  exact ⟨_,_,stepped,.taken filled resumed,rfl⟩

theorem step_reaches (kind : Literal) (small : width text < UInt32.size) (reads : Reads text i s) :
    ∃ first next, step (.single kind.token) s = .ok (first,next) ∧ Reaches kind text i first.span next ∧
      first.token = first.span.map (fun _ => kind.token) := by
  have ended := (Literal.run_exact kind (text.drop i)).2.2
  rcases Nat.eq_zero_or_pos (kind.run (text.drop i)) with nothing | filled
  · rw [nothing,List.drop_zero] at ended
    exact step_passed small reads ended
  · exact step_filled small reads filled

theorem runSpan_numbers {a b : Nat} (small : width text < UInt32.size) (ordered : a ≤ b) (inside : b ≤ text.length) :
    (runSpan text a b).start.toNat = byteOffset text a ∧ (runSpan text a b).reach = byteOffset text b := by
  have fits : byteOffset text b < UInt32.size := Nat.lt_of_le_of_lt (byteOffset_le text b) small
  have level := byteOffset_mono ordered inside
  exact ⟨(Span.ofOffsets_numbers fits level).1,Span.ofOffsets_reach fits level⟩

-- What stops a run cannot begin another.
theorem runSpan_apart {a b c d : Nat} (small : width text < UInt32.size) (first : kind.Maximal text i a b)
    (later : kind.Maximal text b c d) : (runSpan text a b).reach < (runSpan text c d).start.toNat := by
  have begun := later.begun
  have filled := later.filled
  have inside := later.inside
  have apart := later.stopped first.right
  rw [(runSpan_numbers small (Nat.le_of_lt first.filled) first.inside).2,
    (runSpan_numbers small (Nat.le_of_lt later.filled) later.inside).1]
  exact byteOffset_lt (by omega) (by omega)

theorem Walked.runs {steps : List Step} {final : Source} {sets : List TokenSet} (small : width text < UInt32.size)
    (reads : Reads text i s) (walked : Walked sets s steps final) (only : sets = [.single kind.token]) :
    (∀ span, span ∈ steps.filterMap Step.span ↔
      ∃ a b, kind.Maximal text i a b ∧ span = runSpan text a b) ∧
    (steps.filterMap Step.span).Pairwise (fun a b => a.reach < b.start.toNat) ∧
    (∀ round ∈ steps, round.token = round.span.map (fun _ => kind.token)) := by
  induction walked generalizing i with
  | @done s last final sets stepped =>
      subst only
      obtain ⟨_,_,again,reaches,token⟩ := step_reaches kind small reads
      cases stepped.symm.trans again
      generalize found : last.span = span at reaches token
      cases reaches with
      | ended whole =>
          refine ⟨?_,by simp [found],by simpa [found] using token⟩
          intro span
          simp only [List.filterMap_cons,found,List.filterMap_nil,List.not_mem_nil,false_iff]
          rintro ⟨a,b,maximal,_⟩
          have begun := maximal.begun
          have filled := maximal.filled
          have inside := maximal.inside
          omega
  | @onward s first next sets rest final stepped _ ih =>
      subst only
      obtain ⟨_,_,again,reaches,token⟩ := step_reaches kind small reads
      cases stepped.symm.trans again
      generalize found : first.span = span at reaches token
      cases reaches with
      | passed inside stopped onward =>
          obtain ⟨members,ordered,tokens⟩ := ih onward rfl
          refine ⟨?_,by simpa [found] using ordered,List.forall_mem_cons.mpr ⟨by rw [found]; exact token,tokens⟩⟩
          intro span
          simpa [found,Literal.maximal_passed stopped] using members span
      | taken filled onward =>
          obtain ⟨members,ordered,tokens⟩ := ih onward rfl
          refine ⟨?_,?_,List.forall_mem_cons.mpr ⟨by rw [found]; exact token,tokens⟩⟩
          · intro span
            simp only [List.filterMap_cons,found,List.mem_cons,members span,
              Literal.maximal_taken reads.inside filled]
            constructor
            · rintro (rfl | ⟨a,b,maximal,rfl⟩)
              · exact ⟨_,_,.inl ⟨rfl,rfl⟩,rfl⟩
              · exact ⟨a,b,.inr maximal,rfl⟩
            · rintro ⟨a,b,⟨rfl,rfl⟩ | maximal,rfl⟩
              · exact .inl rfl
              · exact .inr ⟨a,b,maximal,rfl⟩
          · simp only [List.filterMap_cons,found]
            refine List.pairwise_cons.mpr ⟨?_,ordered⟩
            intro later member
            obtain ⟨a,b,maximal,rfl⟩ := (members later).mp member
            exact runSpan_apart small (Literal.maximal_run (Nat.le_refl i) reads.inside filled (.inl rfl)) maximal

theorem start_reads (before after : List Char) (regions : List Region) (small : width (before ++ after) < UInt32.size) :
    Reads (before ++ after) before.length
      ((startAt (before ++ after) (UInt32.ofNat (width before))).withRegions regions) := by
  obtain ⟨ready,_,offset⟩ := startAt_here before after regions small
  refine reads_at ready ?_ (by simp)
  rw [offset,byteOffset,List.take_left]

theorem covered_literal {begin k : Nat} (small : width text < UInt32.size) (begun : begin ≤ k) (inside : k < text.length) :
    (∃ a b, kind.Maximal text begin a b ∧ (runSpan text a b).start.toNat ≤ byteOffset text k ∧
      byteOffset text k < (runSpan text a b).reach) ↔ kind.stops (text.drop k) = false := by
  constructor
  · rintro ⟨a,b,maximal,reached,before⟩
    obtain ⟨start,reach⟩ := runSpan_numbers small (Nat.le_of_lt maximal.filled) maximal.inside
    rw [start] at reached
    rw [reach] at before
    have within := maximal.inside
    have filled := maximal.filled
    apply maximal.literal
    · apply Nat.le_of_not_lt
      intro early
      have apart : byteOffset text k < byteOffset text a := byteOffset_lt early (by omega)
      omega
    · apply Nat.lt_of_not_le
      intro late
      have level := byteOffset_mono late (Nat.le_of_lt inside)
      omega
  · intro literal
    obtain ⟨a,b,maximal,reached,before⟩ := Literal.maximal_exists begun inside literal
    obtain ⟨start,reach⟩ := runSpan_numbers small (Nat.le_of_lt maximal.filled) maximal.inside
    refine ⟨a,b,maximal,?_,?_⟩
    · rw [start]; exact byteOffset_mono reached (Nat.le_of_lt inside)
    · rw [reach]; exact byteOffset_lt before maximal.inside

-- A walk that admits literal text only takes each maximal run of it whole, once
-- and in order, and steps over every other character. Regions play no part.
theorem walk_takes_runs (kind : Literal) (before after : List Char) (regions : List Region)
    (small : width (before ++ after) < UInt32.size) :
    let text := before ++ after
    ∃ steps last,
      walk [.single kind.token] ((startAt text (UInt32.ofNat (width before))).withRegions regions) =
        .ok (.ended steps last) ∧
      (∀ span, span ∈ steps.filterMap Step.span ↔
        ∃ a b, kind.Maximal text before.length a b ∧ span = .ofOffsets (byteOffset text a) (byteOffset text b)) ∧
      (steps.filterMap Step.span).Pairwise (fun a b => a.reach < b.start.toNat) ∧
      (∀ k, before.length ≤ k → k < text.length →
        ((∃ span ∈ steps.filterMap Step.span, span.start.toNat ≤ byteOffset text k ∧
          byteOffset text k < span.reach) ↔ kind.stops (text.drop k) = false)) ∧
      (∀ round ∈ steps, round.token = round.span.map (fun _ => kind.token)) := by
  intro text
  have reads := start_reads before after regions small
  obtain ⟨steps,last,walked,few⟩ := walked_ends small reads.ready [.single kind.token]
  obtain ⟨members,ordered,tokens⟩ := walked.runs small reads rfl
  refine ⟨steps,last,walked.walkFor_eq few,members,ordered,?_,tokens⟩
  intro k begun inside
  rw [← covered_literal small begun inside]
  constructor
  · rintro ⟨span,member,covers⟩
    obtain ⟨a,b,maximal,rfl⟩ := (members span).mp member
    exact ⟨a,b,maximal,covers⟩
  · rintro ⟨a,b,maximal,covers⟩
    exact ⟨_,(members _).mpr ⟨a,b,maximal,rfl⟩,covers⟩

theorem walk_takes_runs_dollars :
    width (['\x60'] ++ ['$','$','$','{']) < UInt32.size ∧
    ∃ steps last, walk [.single .template] ((startAt ['\x60','$','$','$','{'] 1).withRegions []) =
      .ok (.ended steps last) ∧ (⟨1,2⟩ : Span) ∈ steps.filterMap Step.span ∧
      ¬∃ span ∈ steps.filterMap Step.span, span.start.toNat ≤ 3 ∧ 3 < span.reach := by
  have small : width (['\x60'] ++ ['$','$','$','{']) < UInt32.size := by decide
  obtain ⟨steps,last,walked,members,_,covers,_⟩ := walk_takes_runs .template ['\x60'] ['$','$','$','{'] [] small
  have first : Literal.template.Maximal ['\x60','$','$','$','{'] 1 1 3 :=
    Literal.maximal_run (Nat.le_refl 1) (by decide) (by decide) (.inl rfl)
  refine ⟨small,steps,last,walked,(members _).mpr ⟨1,3,first,by decide⟩,?_⟩
  intro covered
  have literal := (covers 3 (by decide) (by decide)).mp covered
  revert literal
  decide

end ContextScan.Host
