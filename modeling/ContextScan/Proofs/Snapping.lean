import ContextScan.Proofs.Ready

namespace ContextScan.Text

-- The text as it is kept, and where it may be cut by what its bytes show: at its
-- ends, and in front of a byte that does not go on with a character.
def bytes (text : List Char) : List UInt8 := text.flatMap String.utf8EncodeChar

def continues (b : UInt8) : Bool := 0x80 ≤ b && b < 0xc0

def atBoundary (bs : List UInt8) (n : Nat) : Bool := n == 0 || n == bs.length || bs[n]?.any (fun b => !continues b)

def stepBack (bs : List UInt8) : Nat → Except Fault Nat
  | 0 => if atBoundary bs 0 then .ok 0 else .error .subOverflow
  | n+1 => if atBoundary bs (n + 1) then .ok (n + 1) else stepBack bs n

theorem continues_ofNat {n : Nat} (byte : n < 256) : continues (UInt8.ofNat n) = decide (128 ≤ n ∧ n < 192) := by
  have number : (UInt8.ofNat n).toNat = n := UInt8.toNat_ofNat_of_lt' byte
  simp [continues,UInt8.le_iff_toNat_le,UInt8.lt_iff_toNat_lt,number]

theorem encoded_parts (c : Char) : ∃ first rest, String.utf8EncodeChar c = first :: rest ∧ continues first = false ∧
    ∀ b ∈ rest, continues b = true := by
  have tail : ∀ n, continues (UInt8.ofNat (n % 64 + 128)) = true := by
    intro n
    rw [continues_ofNat (by omega)]
    exact decide_eq_true (by omega)
  have head : ∀ n, n < 128 ∨ 192 ≤ n → n < 256 → continues (UInt8.ofNat n) = false := by
    intro n outside byte
    rw [continues_ofNat byte]
    exact decide_eq_false (by omega)
  unfold String.utf8EncodeChar
  dsimp only
  split
  · exact ⟨_,_,rfl,head _ (by omega) (by omega),List.forall_mem_nil _⟩
  · split
    · exact ⟨_,_,rfl,head _ (by omega) (by omega),List.forall_mem_singleton.mpr (tail _)⟩
    · split
      · exact ⟨_,_,rfl,head _ (by omega) (by omega),
          List.forall_mem_cons.mpr ⟨tail _,List.forall_mem_singleton.mpr (tail _)⟩⟩
      · exact ⟨_,_,rfl,head _ (by omega) (by omega),
          List.forall_mem_cons.mpr ⟨tail _,List.forall_mem_cons.mpr ⟨tail _,List.forall_mem_singleton.mpr (tail _)⟩⟩⟩

theorem bytes_cons (c : Char) (cs : List Char) : bytes (c :: cs) = String.utf8EncodeChar c ++ bytes cs := List.flatMap_cons

theorem bytes_length (cs : List Char) : (bytes cs).length = width cs := by
  induction cs with
  | nil => rfl
  | cons c cs ih => rw [bytes_cons,List.length_append,String.length_utf8EncodeChar,ih,width]

theorem boundary_cons {c : Char} {cs : List Char} {n : Nat} :
    Boundary n (c :: cs) ↔ n = 0 ∨ ∃ m, n = c.utf8Size + m ∧ Boundary m cs := by
  constructor
  · intro boundary
    obtain ⟨before,after,parts,rfl⟩ := boundary
    cases before with
    | nil => exact .inl rfl
    | cons d before =>
        cases parts
        exact .inr ⟨width before,rfl,before,after,rfl,rfl⟩
  · intro either
    rcases either with rfl | ⟨m,rfl,before,after,rfl,rfl⟩
    · exact ⟨[],c :: cs,rfl,rfl⟩
    · exact ⟨c :: before,after,rfl,rfl⟩

theorem boundary_inside {c : Char} {cs : List Char} {n : Nat} (positive : 0 < n) (inside : n < c.utf8Size) :
    ¬Boundary n (c :: cs) := by
  intro boundary
  rcases boundary_cons.mp boundary with zero | ⟨m,past,_⟩
  · omega
  · omega

theorem boundary_past {c : Char} {cs : List Char} {m : Nat} : Boundary (c.utf8Size + m) (c :: cs) ↔ Boundary m cs := by
  constructor
  · intro boundary
    have wide := c.utf8Size_pos
    rcases boundary_cons.mp boundary with zero | ⟨k,same,there⟩
    · omega
    · rwa [Nat.add_left_cancel same]
  · intro boundary
    exact boundary_cons.mpr (.inr ⟨m,rfl,boundary⟩)

theorem atBoundary_inside {c : Char} {cs : List Char} {n : Nat} (positive : 0 < n) (inside : n < c.utf8Size) :
    atBoundary (bytes (c :: cs)) n = false := by
  obtain ⟨first,rest,encoded,_,tail⟩ := encoded_parts c
  have size := String.length_utf8EncodeChar c
  have long := bytes_length (c :: cs)
  obtain ⟨m,rfl⟩ : ∃ m, n = m + 1 := ⟨n - 1,by omega⟩
  rw [encoded,List.length_cons] at size
  have within : m < rest.length := by omega
  have found : (bytes (c :: cs))[m + 1]? = some rest[m] := by
    rw [bytes_cons,encoded,List.cons_append,List.getElem?_cons_succ,List.getElem?_append_left within]
    exact List.getElem?_eq_getElem within
  have short : m + 1 ≠ (bytes (c :: cs)).length := by
    rw [long,width]
    omega
  simp [atBoundary,found,short,tail]

theorem atBoundary_past {c : Char} {cs : List Char} {m : Nat} (positive : 0 < m) :
    atBoundary (bytes (c :: cs)) (c.utf8Size + m) = atBoundary (bytes cs) m := by
  have size := String.length_utf8EncodeChar c
  have found : (bytes (c :: cs))[c.utf8Size + m]? = (bytes cs)[m]? := by
    rw [bytes_cons,List.getElem?_append_right (by omega),size,Nat.add_sub_cancel_left]
  have ended : (c.utf8Size + m == (bytes (c :: cs)).length) = (m == (bytes cs).length) := by
    rw [bytes_length,bytes_length,width,Bool.eq_iff_iff,beq_iff_eq,beq_iff_eq]
    exact Nat.add_left_cancel_iff
  have later : (c.utf8Size + m == 0) = (m == 0) := by
    rw [Bool.eq_iff_iff,beq_iff_eq,beq_iff_eq]
    omega
  rw [atBoundary,atBoundary,found,ended,later]

theorem atBoundary_begun (c : Char) (cs : List Char) : atBoundary (bytes (c :: cs)) c.utf8Size = true := by
  have size := String.length_utf8EncodeChar c
  cases cs with
  | nil => simp [atBoundary,bytes,size]
  | cons d cs =>
      obtain ⟨first,rest,encoded,begins,_⟩ := encoded_parts d
      have found : (bytes (c :: d :: cs))[c.utf8Size]? = some first := by
        rw [bytes_cons,List.getElem?_append_right (by omega),size,Nat.sub_self,bytes_cons,encoded]
        rfl
      simp [atBoundary,found,begins]

-- What the bytes show is where one character ends and another begins.
theorem atBoundary_exact (cs : List Char) (n : Nat) : atBoundary (bytes cs) n = true ↔ Boundary n cs := by
  induction cs generalizing n with
  | nil =>
      constructor
      · intro shown
        have zero : n = 0 := by simpa [atBoundary,bytes] using shown
        exact ⟨[],[],rfl,zero.symm⟩
      · intro boundary
        have zero : n = 0 := Nat.le_zero.mp boundary.le_width
        rw [zero]
        rfl
  | cons c cs ih =>
      rcases Nat.lt_or_ge n c.utf8Size with inside | past
      · rcases Nat.eq_zero_or_pos n with rfl | positive
        · exact ⟨fun _ => ⟨[],c :: cs,rfl,rfl⟩,fun _ => rfl⟩
        · simp [atBoundary_inside positive inside,boundary_inside positive inside]
      · obtain ⟨m,rfl⟩ := Nat.exists_eq_add_of_le past
        rw [boundary_past]
        rcases Nat.eq_zero_or_pos m with rfl | positive
        · exact ⟨fun _ => ⟨[],cs,rfl,rfl⟩,fun _ => atBoundary_begun c cs⟩
        · rw [atBoundary_past positive]
          exact ih m

theorem stepBack_greatest (bs : List UInt8) (n : Nat) : ∃ m, stepBack bs n = .ok m ∧ m ≤ n ∧
    atBoundary bs m = true ∧ ∀ k, atBoundary bs k = true → k ≤ n → k ≤ m := by
  induction n with
  | zero => exact ⟨0,rfl,Nat.le_refl 0,rfl,fun _ _ low => low⟩
  | succ n ih =>
      cases shown : atBoundary bs (n + 1) with
      | true => exact ⟨n + 1,if_pos shown,Nat.le_refl _,shown,fun _ _ low => low⟩
      | false =>
          obtain ⟨m,stepped,low,boundary,greatest⟩ := ih
          refine ⟨m,?_,Nat.le_succ_of_le low,boundary,?_⟩
          · rw [stepBack,shown]
            exact stepped
          · intro k sought within
            rcases Nat.lt_or_eq_of_le within with below | rfl
            · exact greatest k sought (Nat.le_of_lt_succ below)
            · rw [shown] at sought
              cases sought

end ContextScan.Text

namespace ContextScan.Place
open Text

variable {p : Place}

-- The place sought by whole characters is the one gone back to by bytes.
theorem seek_steps (sound : p.Sound) (limit : Nat) :
    stepBack (bytes p.text) (min limit (width p.text)) = .ok (p.seek limit).offset := by
  obtain ⟨there,low,_⟩ := seek_floor limit sound
  have here := there.boundary
  rw [seek_text] at here
  obtain ⟨m,stepped,within,shown,greatest⟩ := stepBack_greatest (bytes p.text) (min limit (width p.text))
  have boundary := (atBoundary_exact p.text m).mp shown
  have least : m ≤ (p.seek limit).offset := seek_greatest sound boundary (by omega)
  have most : (p.seek limit).offset ≤ m :=
    greatest _ ((atBoundary_exact p.text _).mpr here) (Nat.le_min.mpr ⟨low,here.le_width⟩)
  rw [stepped,Nat.le_antisymm least most]

theorem seek_near (sound : p.Sound) (limit : Nat) : min limit (width p.text) ≤ (p.seek limit).offset + 3 := by
  obtain ⟨there,_,crossing⟩ := seek_floor limit sound
  cases ahead : (p.seek limit).ahead with
  | nil =>
      have whole : width p.text = (p.seek limit).offset := by
        rw [← seek_text p limit,text,ahead,List.append_nil,width_reverse]
        exact there.symm
      omega
  | cons c rest =>
      have crossed := crossing c rest ahead
      have narrow := c.utf8Size_le_four
      omega

theorem seek_here (sound : p.Sound) : p.seek p.offset = p :=
  (seek_floor p.offset sound).1.unique sound (seek_text p p.offset) (seek_boundary sound sound.boundary)

theorem seek_inside {before after : List Char} {c : Char} (sound : p.Sound) (parts : p.text = before ++ c :: after)
    {limit : Nat} (low : width before ≤ limit) (high : limit < width before + c.utf8Size) :
    p.seek limit = ⟨before.reverse,c :: after,width before⟩ := by
  obtain ⟨there,within,_⟩ := seek_floor limit sound
  have here : Place.Sound ⟨before.reverse,c :: after,width before⟩ := (width_reverse before).symm
  have same : Place.text ⟨before.reverse,c :: after,width before⟩ = p.text := by
    rw [parts,text,List.reverse_reverse]
  have boundary : Boundary (p.seek limit).offset (Place.text ⟨before.reverse,c :: after,width before⟩) := by
    rw [same,← seek_text p limit]
    exact there.boundary
  have crossing : ∀ d rest, c :: after = d :: rest → limit < width before + d.utf8Size := by
    intro d rest next
    cases next
    exact high
  apply there.unique here ((seek_text p limit).trans same.symm)
  apply Nat.le_antisymm
  · exact floor_greatest here crossing boundary within
  · exact seek_greatest sound ⟨before,c :: after,parts,rfl⟩ low

end ContextScan.Place

namespace ContextScan.Source
open Text

structure Snapped (text : List Char) (s : Source) (offset : UInt32) (t : Source) : Prop where
  stepped : stepBack (bytes text) (min offset.toNat (width text)) = .ok t.pos.toNat
  boundary : Boundary t.pos.toNat text
  within : t.pos.toNat ≤ min offset.toNat (width text)
  greatest : ∀ n, Boundary n text → n ≤ min offset.toNat (width text) → n ≤ t.pos.toNat
  near : min offset.toNat (width text) ≤ t.pos.toNat + 3
  held : t.text = text
  begun : t.tokenStart = t.pos.toNat
  unmarked : t.tokenEnd = none
  contentless : t.hasContent = false
  regions : t.regions = s.regions

variable {text : List Char} {s : Source}

theorem setPos_snapped (small : width text < UInt32.size) (valid : Valid text s) (offset : UInt32) :
    Snapped text s offset (s.setPos offset) := by
  have ready := setPos_ready valid offset
  have held : s.place.text = text := valid.held
  have position : (s.setPos offset).pos.toNat = (s.place.seek offset.toNat).offset := ready.valid.pos small
  have boundary : Boundary (s.setPos offset).pos.toNat text := by
    rw [position]
    exact ready.valid.boundary
  have low : (s.setPos offset).pos.toNat ≤ offset.toNat := by
    rw [position]
    exact (Place.seek_floor _ valid.sound).2.1
  refine ⟨?_,boundary,Nat.le_min.mpr ⟨low,boundary.le_width⟩,?_,?_,ready.valid.held,?_,rfl,rfl,rfl⟩
  · rw [position,← held]
    exact Place.seek_steps valid.sound _
  · intro n there within
    rw [← held] at there
    rw [position]
    exact Place.seek_greatest valid.sound there (by omega)
  · rw [position,← held]
    exact Place.seek_near valid.sound _
  · rw [position]
    rfl

theorem setPos_monotone (small : width text < UInt32.size) (valid : Valid text s) {n m : UInt32} (ordered : n ≤ m) :
    (s.setPos n).pos ≤ (s.setPos m).pos := by
  have low := setPos_snapped small valid n
  have high := setPos_snapped small valid m
  rw [UInt32.le_iff_toNat_le] at ordered ⊢
  have within := low.within
  exact high.greatest _ low.boundary (by omega)

theorem setPos_there (valid : Valid text s) {n : UInt32} (boundary : Boundary n.toNat text) :
    (s.setPos n).pos = n := by
  have there := setPos_boundary valid boundary n.toNat_lt
  rwa [UInt32.ofNat_toNat] at there

theorem setPos_again (small : width text < UInt32.size) (valid : Valid text s) (n : UInt32) :
    (s.setPos n).setPos (s.setPos n).pos = s.setPos n := by
  have ready := setPos_ready valid n
  have here : (s.setPos n).pos.toNat = (s.setPos n).place.offset := ready.valid.pos small
  change startToken {s.setPos n with place := (s.setPos n).place.seek (s.setPos n).pos.toNat} = s.setPos n
  rw [here,Place.seek_here ready.valid.sound]
  rfl

theorem setPos_inside {before after : List Char} {c : Char} (valid : Valid (before ++ c :: after) s) {n : UInt32}
    (low : width before ≤ n.toNat) (high : n.toNat < width before + c.utf8Size) :
    s.setPos n = (fresh ⟨before.reverse,c :: after,width before⟩).withRegions s.regions := by
  unfold setPos
  rw [Place.seek_inside valid.sound valid.held low high]
  rfl

end ContextScan.Source

namespace ContextScan.Session
open Text Source

-- Whatever was done before, a cursor put anywhere is at the character there.
theorem setPos_snaps (text : List Char) (small : width text < UInt32.size) (first : Source)
    (begins : first = .start text ∨ ∃ offset, first = .startAt text offset) (requests : List Request) :
    ∃ session, run (start first) requests = .ok session ∧
      (∀ n, Snapped text session.current n (session.current.setPos n)) ∧
      (∀ n m, n ≤ m → (session.current.setPos n).pos ≤ (session.current.setPos m).pos) ∧
      (∀ n : UInt32, Boundary n.toNat text → (session.current.setPos n).pos = n) ∧
      (∀ n, (session.current.setPos n).setPos (session.current.setPos n).pos = session.current.setPos n) ∧
      ∀ before c after, text = before ++ c :: after → ∀ n : UInt32, width before ≤ n.toNat →
        n.toNat < width before + c.utf8Size →
        let inside := session.current.setPos n
        let begun := session.current.setPos (UInt32.ofNat (width before))
        inside.pos.toNat = width before ∧ ∀ admissible,
          (scan admissible inside).token = (scan admissible begun).token ∧
          (scan admissible inside).cursor.tokenSpan = (scan admissible begun).cursor.tokenSpan ∧
          (scan admissible inside).cursor.pos = (scan admissible begun).cursor.pos := by
  obtain ⟨session,ran,valid,_⟩ := run_valid small (begun_valid begins) requests
  refine ⟨session,ran,setPos_snapped small valid,fun n m => setPos_monotone small valid,fun n => setPos_there valid,
    setPos_again small valid,?_⟩
  intro before c after parts n low high inside begun
  rw [parts] at valid
  have fits : width before < UInt32.size := Nat.lt_of_le_of_lt low n.toNat_lt
  have number : (UInt32.ofNat (width before)).toNat = width before := UInt32.toNat_ofNat_of_lt' fits
  have here : inside = (fresh ⟨before.reverse,c :: after,width before⟩).withRegions session.current.regions :=
    setPos_inside valid low high
  have there : begun = (fresh ⟨before.reverse,c :: after,width before⟩).withRegions session.current.regions := by
    apply setPos_inside valid
    · exact Nat.le_of_eq number.symm
    · rw [number]
      exact Nat.lt_add_of_pos_right c.utf8Size_pos
  refine ⟨?_,?_⟩
  · rw [here]
    exact number
  · intro admissible
    rw [here,there]
    exact ⟨rfl,rfl,rfl⟩

theorem setPos_snaps_inside : width ['a','\u2713','b'] < UInt32.size ∧
    ∃ session, run (start (.startAt ['a','\u2713','b'] 2)) [.markEnd,.advance,.setPos 9,.regions [⟨3,2⟩]] = .ok session ∧
      Snapped ['a','\u2713','b'] session.current 3 (session.current.setPos 3) ∧
      (session.current.setPos 3).pos ≤ (session.current.setPos 9).pos ∧ (session.current.setPos 4).pos = 4 ∧
      (session.current.setPos 3).pos.toNat = 1 ∧
      ∀ admissible, (scan admissible (session.current.setPos 3)).token = (scan admissible (session.current.setPos 1)).token := by
  have small : width ['a','\u2713','b'] < UInt32.size := by decide
  obtain ⟨session,ran,snapped,monotone,there,_,inside⟩ := setPos_snaps ['a','\u2713','b'] small _ (.inr ⟨2,rfl⟩)
    [.markEnd,.advance,.setPos 9,.regions [⟨3,2⟩]]
  obtain ⟨begun,same⟩ := inside ['a'] '\u2713' ['b'] rfl 3 (by decide) (by decide)
  exact ⟨small,session,ran,snapped 3,monotone 3 9 (by decide),there 4 ⟨['a','\u2713'],['b'],rfl,rfl⟩,begun,
    fun admissible => (same admissible).1⟩

end ContextScan.Session
