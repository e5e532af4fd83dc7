import ContextScan.Source

namespace ContextScan.Text

theorem Boundary.le_width {n : Nat} {cs : List Char} (boundary : Boundary n cs) : n ≤ width cs := by
  obtain ⟨before,after,rfl,rfl⟩ := boundary
  rw [width_append]
  exact Nat.le_add_right _ _

theorem width_le {a b : List Char} (short : a <+: b) : width a ≤ width b := by
  obtain ⟨more,rfl⟩ := short
  rw [width_append]
  exact Nat.le_add_right _ _

theorem width_lead {a b : List Char} {n : Nat} (small : width (a ++ b) < n) : width a < n :=
  Nat.lt_of_le_of_lt (width_le (List.prefix_append a b)) small

theorem width_replicate (n : Nat) (c : Char) : width (List.replicate n c) = n * c.utf8Size := by
  induction n with
  | zero => rw [List.replicate_zero,Nat.zero_mul,width]
  | succ n ih => rw [List.replicate_succ,width,ih,Nat.succ_mul,Nat.add_comm]

theorem split_unique {a b c d : List Char} (same : a ++ b = c ++ d) (level : width a = width c) :
    a = c ∧ b = d := by
  have left := splitAt_append a b
  rw [same,level,splitAt_append c d] at left
  cases left
  exact ⟨rfl,rfl⟩

theorem slice_middle (before middle after : List Char) :
    slice? (width before) (width before + width middle) (before ++ middle ++ after) = some middle := by
  have size : width before + width middle - width before = width middle := by omega
  rw [slice?,if_pos (Nat.le_add_right _ _),List.append_assoc,splitAt_append,Option.bind_some,size,splitAt_append]
  rfl

end ContextScan.Text

namespace ContextScan.Place
open Text

theorem start_sound (text : List Char) : (start text).Sound := rfl

theorem start_text (text : List Char) : (start text).text = text := rfl

theorem Sound.next {p : Place} (sound : p.Sound) : p.next.Sound := by
  obtain ⟨behind,ahead,offset⟩ := p
  cases ahead with
  | nil => exact sound
  | cons c ahead =>
      change offset = width behind at sound
      change offset + c.utf8Size = c.utf8Size + width behind
      rw [sound,Nat.add_comm]

theorem offset_le_next (p : Place) : p.offset ≤ p.next.offset := by
  obtain ⟨behind,ahead,offset⟩ := p
  cases ahead with
  | nil => exact Nat.le_refl _
  | cons c ahead => exact Nat.le_add_right _ _

theorem Sound.boundary {p : Place} (sound : p.Sound) : Boundary p.offset p.text :=
  ⟨p.behind.reverse,p.ahead,rfl,by rw [width_reverse]; exact sound.symm⟩

theorem Sound.unique {p q : Place} (left : p.Sound) (right : q.Sound) (text : p.text = q.text)
    (offset : p.offset = q.offset) : p = q := by
  have level : width p.behind.reverse = width q.behind.reverse := by
    rw [width_reverse,width_reverse,← left,← right,offset]
  obtain ⟨behind,ahead⟩ := split_unique text level
  obtain ⟨before,after,n⟩ := p
  obtain ⟨before',after',m⟩ := q
  cases List.reverse_inj.mp behind
  cases ahead
  cases offset
  rfl

theorem retreat_floor (limit : Nat) (behind ahead : List Char) (offset : Nat) (sound : offset = width behind) :
    (retreat limit behind ahead offset).Sound ∧ (retreat limit behind ahead offset).offset ≤ limit := by
  fun_induction retreat limit behind ahead offset with
  | case1 => exact ⟨sound,by simp [sound,width]⟩
  | case2 ahead offset c behind within => exact ⟨sound,within⟩
  | case3 ahead offset c behind _ ih => exact ih (by simp only [width] at sound; omega)

theorem proceed_floor (limit : Nat) (behind ahead : List Char) (offset : Nat) (sound : offset = width behind)
    (within : offset ≤ limit) : (proceed limit behind ahead offset).Sound ∧
      (proceed limit behind ahead offset).offset ≤ limit ∧
      ∀ c rest, (proceed limit behind ahead offset).ahead = c :: rest →
        limit < (proceed limit behind ahead offset).offset + c.utf8Size := by
  fun_induction proceed limit behind ahead offset with
  | case1 => exact ⟨sound,within,fun c rest crossed => by cases crossed⟩
  | case2 behind offset c ahead fits ih => exact ih (by simp only [width]; omega) fits
  | case3 behind offset c ahead crossing =>
      refine ⟨sound,within,?_⟩
      intro d rest next
      cases next
      exact Nat.lt_of_not_le crossing

theorem seek_floor {p : Place} (limit : Nat) (sound : p.Sound) : (p.seek limit).Sound ∧
    (p.seek limit).offset ≤ limit ∧
    ∀ c rest, (p.seek limit).ahead = c :: rest → limit < (p.seek limit).offset + c.utf8Size := by
  obtain ⟨back,within⟩ := retreat_floor limit p.behind p.ahead p.offset sound
  exact proceed_floor limit _ _ _ back within

-- No boundary lies between a place and a limit that its next character crosses.
theorem floor_greatest {p : Place} {limit n : Nat} (sound : p.Sound)
    (crossing : ∀ c rest, p.ahead = c :: rest → limit < p.offset + c.utf8Size)
    (boundary : Boundary n p.text) (within : n ≤ limit) : n ≤ p.offset := by
  obtain ⟨before,after,parts,rfl⟩ := boundary
  have behind : p.offset = width p.behind.reverse := by
    rw [width_reverse]; exact sound
  rcases List.append_eq_append_iff.mp parts with ⟨more,rfl,ahead⟩ | ⟨more,shorter,_⟩
  · cases more with
    | nil => simp [behind]
    | cons c rest =>
        have crossed := crossing c (rest ++ after) ahead
        simp only [width_append,width] at within ⊢
        omega
  · rw [behind,shorter,width_append]
    exact Nat.le_add_right _ _

theorem seek_greatest {p : Place} {limit n : Nat} (sound : p.Sound) (boundary : Boundary n p.text)
    (within : n ≤ limit) : n ≤ (p.seek limit).offset := by
  obtain ⟨there,_,crossing⟩ := seek_floor limit sound
  apply floor_greatest there crossing _ within
  rw [seek_text]
  exact boundary

theorem seek_boundary {p : Place} {n : Nat} (sound : p.Sound) (boundary : Boundary n p.text) :
    (p.seek n).offset = n :=
  Nat.le_antisymm (seek_floor n sound).2.1 (seek_greatest sound boundary (Nat.le_refl n))

end ContextScan.Place

namespace ContextScan.Source
open Text

variable {regions : List Region} {offset : Nat} {s : Source}

def RegionAt (regions : List Region) (offset : Nat) : Prop := ∃ region ∈ regions, region.start.toNat = offset

-- A cursor at the offset is told so, from a position of 32 bits.
def RegionSeen (regions : List Region) (offset : Nat) : Prop := ∃ region ∈ regions, region.start = UInt32.ofNat offset

theorem regionSeen_exact (fits : offset < UInt32.size) : RegionSeen regions offset ↔ RegionAt regions offset := by
  simp only [RegionSeen,RegionAt,← UInt32.toNat_inj,UInt32.toNat_ofNat_of_lt' fits]

theorem regionless_past {begin : Nat} (behind : ∀ region ∈ regions, region.start.toNat < begin) (onward : begin ≤ offset) :
    ¬RegionAt regions offset := by
  rintro ⟨region,member,starts⟩
  have early := behind region member
  omega

theorem atRegionStart_seen (s : Source) : s.atRegionStart = true ↔ RegionSeen s.regions s.place.offset := by
  simp only [atRegionStart,List.any_eq_true,beq_iff_eq]
  rfl

theorem atRegionStart_exact (fits : s.place.offset < UInt32.size) :
    s.atRegionStart = true ↔ RegionAt s.regions s.place.offset :=
  (atRegionStart_seen s).trans (regionSeen_exact fits)

def fresh (p : Place) : Source := ⟨p,p.offset,none,false,[]⟩

theorem startAt_fresh (text : List Char) (offset : UInt32) :
    startAt text offset = fresh ((Place.start text).seek offset.toNat) := rfl

theorem startAt_boundary {before : List Char} (after : List Char) (fits : width before < UInt32.size) :
    startAt (before ++ after) (UInt32.ofNat (width before)) = fresh ⟨before.reverse,after,width before⟩ := by
  have sound := Place.start_sound (before ++ after)
  have offset := Place.seek_boundary sound ⟨before,after,rfl,rfl⟩
  have there : Place.Sound ⟨before.reverse,after,width before⟩ := (width_reverse before).symm
  have same : (Place.start (before ++ after)).seek (width before) = ⟨before.reverse,after,width before⟩ := by
    apply (Place.seek_floor _ sound).1.unique there
    · rw [Place.seek_text]
      simp [Place.text,Place.start]
    · exact offset
  rw [startAt_fresh,UInt32.toNat_ofNat_of_lt' fits,same]

-- One character more and a position no longer fits 32 bits.
theorem startAt_brink (after : List Char) : startAt (List.replicate 4294967295 'x' ++ after) 4294967295 =
    fresh ⟨(List.replicate 4294967295 'x').reverse,after,4294967295⟩ := by
  have whole : width (List.replicate 4294967295 'x') = 4294967295 := width_replicate _ _
  have there : startAt (List.replicate 4294967295 'x' ++ after) (UInt32.ofNat (width (List.replicate 4294967295 'x'))) = _ :=
    startAt_boundary after (by rw [whole]; decide)
  rw [whole] at there
  exact there

end ContextScan.Source
