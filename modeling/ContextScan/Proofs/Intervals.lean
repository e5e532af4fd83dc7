import ContextScan.Span

namespace ContextScan

universe u v

-- Fails where something holds, always with the same fault, and answers everywhere else.
structure FailsWhere {α : Type u} (answer : Except Fault α) (fault : Fault) (crossed : Prop) : Prop where
  failed : answer = .error fault ↔ crossed
  answered : (∃ value, answer = .ok value) ↔ ¬crossed

namespace FailsWhere

variable {α : Type u} {β : Type v} {answer : Except Fault α} {fault : Fault} {crossed : Prop}

theorem of (value : α) (answers : ¬crossed → answer = .ok value) (fails : crossed → answer = .error fault) :
    FailsWhere answer fault crossed := by
  by_cases holds : crossed
  · rw [fails holds]
    refine ⟨⟨fun _ => holds,fun _ => rfl⟩,?_,fun missed => absurd holds missed⟩
    intro answered
    obtain ⟨_,same⟩ := answered
    cases same
  · rw [answers holds]
    refine ⟨⟨?_,fun reached => absurd reached holds⟩,fun _ => holds,fun _ => ⟨value,rfl⟩⟩
    intro same
    cases same

theorem map (fails : FailsWhere answer fault crossed) (made : α → β) : FailsWhere (answer.map made) fault crossed := by
  by_cases holds : crossed
  · rw [fails.failed.mpr holds]
    refine ⟨⟨fun _ => holds,fun _ => rfl⟩,?_,fun missed => absurd holds missed⟩
    intro answered
    obtain ⟨_,same⟩ := answered
    cases same
  · obtain ⟨value,answered⟩ := fails.answered.mpr holds
    rw [answered]
    exact of (made value) (fun _ => rfl) (fun reached => absurd reached holds)

end FailsWhere

namespace Offset

theorem add_fails (a b : UInt32) : FailsWhere (add a b) .addOverflow (UInt32.size ≤ a.toNat + b.toNat) :=
  .of _ (fun fits => (add_ok (Nat.not_le.mp fits)).1) add_error.mpr

theorem sub_fails (a b : UInt32) : FailsWhere (sub a b) .subOverflow (a < b) :=
  .of _ (fun ordered => (sub_ok (UInt32.not_lt.mp ordered)).1) sub_error.mpr

end Offset

namespace Region

theorem make_fails (start stop : UInt32) : FailsWhere (make start stop) .regionReversed (stop < start) := by
  refine .of ⟨start,stop⟩ ?_ ?_
  · intro ordered
    exact if_pos (UInt32.not_lt.mp ordered)
  · intro reversed
    exact if_neg (UInt32.not_le.mpr reversed)

theorem contains_exact (r : Region) (p : UInt32) : r.contains p = true ↔ r.start ≤ p ∧ p < r.stop := by
  simp [contains]

end Region

namespace Span

variable {s : Span} {r : Region}

-- Everything a span is asked for that needs its end. A position is only compared
-- with the end if it does not lie before the start.
structure NeedsEnd (s : Span) : Prop where
  stop : FailsWhere s.stop .addOverflow (UInt32.size ≤ s.reach)
  bounds : FailsWhere s.bounds .addOverflow (UInt32.size ≤ s.reach)
  slice : ∀ text, FailsWhere (s.slice text) .addOverflow (UInt32.size ≤ s.reach)
  dotted : FailsWhere s.dotted .addOverflow (UInt32.size ≤ s.reach)
  bracketed : FailsWhere s.bracketed .addOverflow (UInt32.size ≤ s.reach)
  toRegion : FailsWhere s.toRegion .addOverflow (UInt32.size ≤ s.reach)
  contains : ∀ p, FailsWhere (s.contains p) .addOverflow (s.start ≤ p ∧ UInt32.size ≤ s.reach)

structure Matches (s : Span) (r : Region) : Prop where
  begun : r.start = s.start
  ended : r.stop.toNat = s.reach
  stop : s.stop = .ok r.stop
  toRegion : s.toRegion = .ok r
  ofRegion : ofRegion r = .ok s
  covers : ∀ p, r.contains p = true ↔ s.start.toNat ≤ p.toNat ∧ p.toNat < s.reach
  contains : ∀ p, s.contains p = .ok (r.contains p)
  isEmpty : s.isEmpty = r.isEmpty
  length : r.length = .ok s.length
  vacant : s.isEmpty = true ↔ ∀ p, r.contains p = false

theorem ofBounds_fails (start stop : UInt32) : FailsWhere (ofBounds start stop) .spanReversed (stop < start) := by
  refine .of ⟨start,stop - start⟩ ?_ ?_
  · intro ordered
    exact if_pos (UInt32.not_lt.mp ordered)
  · intro reversed
    exact if_neg (UInt32.not_le.mpr reversed)

theorem stop_fails (s : Span) : FailsWhere s.stop .addOverflow (UInt32.size ≤ s.reach) := Offset.add_fails s.start s.length

theorem stop_reach (fits : s.reach < UInt32.size) : s.stop = .ok (s.start + s.length) ∧ (s.start + s.length).toNat = s.reach :=
  Offset.add_ok fits

theorem start_le_stop (fits : s.reach < UInt32.size) : s.start ≤ s.start + s.length := by
  rw [UInt32.le_iff_toNat_le,(stop_reach fits).2]
  exact Nat.le_add_right _ _

-- An end that fits is not before the start, so a region is refused for the sum alone.
theorem toRegion_reach (fits : s.reach < UInt32.size) : s.toRegion = .ok ⟨s.start,s.start + s.length⟩ := by
  rw [toRegion,(stop_reach fits).1]
  exact if_pos (start_le_stop fits)

theorem needs_end (s : Span) : NeedsEnd s := by
  have stop := stop_fails s
  refine ⟨stop,stop.map _,fun text => stop.map _,stop.map _,stop.map _,?_,?_⟩
  · refine .of _ (fun fits => toRegion_reach (Nat.not_le.mp fits)) ?_
    intro crossed
    rw [toRegion,stop.failed.mpr crossed]
    rfl
  · intro p
    by_cases past : s.start ≤ p
    · rw [contains,if_pos past]
      simpa [past] using stop.map (fun stop => decide (p < stop))
    · rw [contains,if_neg past]
      exact .of _ (fun _ => rfl) (fun crossed => absurd crossed.1 past)

theorem isEmpty_exact (s : Span) : s.isEmpty = true ↔ s.length.toNat = 0 := by
  rw [isEmpty,beq_iff_eq,← UInt32.toNat_inj]
  rfl

theorem matches_reach (fits : s.reach < UInt32.size) : Matches s ⟨s.start,s.start + s.length⟩ := by
  obtain ⟨stop,number⟩ := stop_reach fits
  have ordered := start_le_stop fits
  have back : s.start + s.length - s.start = s.length := by
    apply UInt32.toNat_inj.mp
    rw [UInt32.toNat_sub_of_le _ _ ordered,number,reach]
    exact Nat.add_sub_cancel_left ..
  have covers : ∀ p, Region.contains ⟨s.start,s.start + s.length⟩ p = true ↔
      s.start.toNat ≤ p.toNat ∧ p.toNat < s.reach := by
    intro p
    rw [Region.contains_exact,UInt32.le_iff_toNat_le,UInt32.lt_iff_toNat_lt,number]
  have vacant : s.isEmpty = true ↔ ∀ p, Region.contains ⟨s.start,s.start + s.length⟩ p = false := by
    rw [isEmpty_exact]
    constructor
    · intro nothing p
      rw [Bool.eq_false_iff]
      intro inside
      have within := (covers p).mp inside
      rw [reach] at within
      omega
    · intro outside
      have first := outside s.start
      rw [Bool.eq_false_iff,Ne,covers,reach] at first
      omega
  refine ⟨rfl,number,stop,toRegion_reach fits,?_,covers,?_,?_,?_,vacant⟩
  · rw [ofRegion,ofBounds,if_pos ordered,back]
  · intro p
    rw [contains,stop]
    by_cases past : s.start ≤ p
    · simp [past,Region.contains,Except.map]
    · simp [past,Region.contains]
  · have meet : Region.isEmpty ⟨s.start,s.start + s.length⟩ = true ↔ s.start = s.start + s.length := beq_iff_eq
    rw [Bool.eq_iff_iff,isEmpty_exact,meet,← UInt32.toNat_inj,number,reach]
    omega
  · rw [Region.length,(Offset.sub_ok ordered).1,back]

theorem matches_bounds {start stop : UInt32} (made : ofBounds start stop = .ok s) : Matches s ⟨start,stop⟩ := by
  have ordered : start ≤ stop := UInt32.not_lt.mp ((ofBounds_fails start stop).answered.mp ⟨s,made⟩)
  rw [ofBounds,if_pos ordered] at made
  cases made
  have low := UInt32.le_iff_toNat_le.mp ordered
  have length := UInt32.toNat_sub_of_le _ _ ordered
  have fits : reach ⟨start,stop - start⟩ < UInt32.size := by
    have small : stop.toNat < UInt32.size := stop.toNat_lt
    change start.toNat + (stop - start).toNat < UInt32.size
    omega
  have ends : start + (stop - start) = stop := by
    apply UInt32.toNat_inj.mp
    rw [(stop_reach fits).2]
    change start.toNat + (stop - start).toNat = stop.toNat
    omega
  have same := matches_reach fits
  rwa [ends] at same

-- Two ends in order, a start with a length whose sum fits, and a region in order
-- are one and the same; what is not so is refused, each for its own reason.
theorem intervals_exact (start stop : UInt32) (s : Span) (r : Region) :
    FailsWhere (ofBounds start stop) .spanReversed (stop < start) ∧
    FailsWhere (Region.make start stop) .regionReversed (stop < start) ∧
    (start ≤ stop → ∃ made, ofBounds start stop = .ok made ∧ Region.make start stop = .ok ⟨start,stop⟩ ∧
      made.stop = .ok stop ∧ Matches made ⟨start,stop⟩) ∧
    (s.reach < UInt32.size → ∃ region, s.toRegion = .ok region ∧ ofRegion region = .ok s ∧ Matches s region) ∧
    NeedsEnd s ∧
    FailsWhere r.length .subOverflow (r.stop < r.start) ∧
    FailsWhere (ofRegion r) .spanReversed (r.stop < r.start) ∧
    ∀ p, r.contains p = true ↔ r.start ≤ p ∧ p < r.stop := by
  refine ⟨ofBounds_fails start stop,Region.make_fails start stop,?_,?_,needs_end s,Offset.sub_fails r.stop r.start,
    ofBounds_fails r.start r.stop,r.contains_exact⟩
  · intro ordered
    obtain ⟨made,found⟩ := (ofBounds_fails start stop).answered.mpr (UInt32.not_lt.mpr ordered)
    have same := matches_bounds found
    exact ⟨made,found,if_pos ordered,same.stop,same⟩
  · intro fits
    have same := matches_reach fits
    exact ⟨_,same.toRegion,same.ofRegion,same⟩

theorem intervals_exact_last :
    (∃ made, ofBounds 4294967290 4294967295 = .ok made ∧ made.stop = .ok 4294967295 ∧
      Matches made ⟨4294967290,4294967295⟩) ∧
    (∃ region, toRegion ⟨4294967290,5⟩ = .ok region ∧ ofRegion region = .ok ⟨4294967290,5⟩) ∧
    stop ⟨4294967290,6⟩ = .error .addOverflow ∧ contains ⟨4294967290,6⟩ 4294967290 = .error .addOverflow ∧
    (∃ inside, contains ⟨4294967290,6⟩ 4294967289 = .ok inside) ∧
    Region.length ⟨2,1⟩ = .error .subOverflow ∧ ofRegion ⟨2,1⟩ = .error .spanReversed := by
  obtain ⟨_,_,bounds,back,_⟩ := intervals_exact 4294967290 4294967295 ⟨4294967290,5⟩ ⟨2,1⟩
  obtain ⟨_,_,_,_,needs,length,spanned,_⟩ := intervals_exact 0 0 ⟨4294967290,6⟩ ⟨2,1⟩
  obtain ⟨made,found,_,ended,same⟩ := bounds (by decide)
  obtain ⟨region,there,again,_⟩ := back (by decide)
  exact ⟨⟨made,found,ended,same⟩,⟨region,there,again⟩,needs.stop.failed.mpr (by decide),
    (needs.contains _).failed.mpr (by decide),(needs.contains _).answered.mpr (by decide),
    length.failed.mpr (by decide),spanned.failed.mpr (by decide)⟩

end Span
end ContextScan
