import ContextScan.Proofs.LineEndings
import ContextScan.Proofs.Ready

namespace ContextScan.Text

def Marks (text : List Char) (offset : Nat) (rest : List Char) : Prop := ∃ lead, text = lead ++ rest ∧ width lead = offset

theorem Marks.crlf_lead {lead rest : List Char} {n : Nat} (there : Marks (crlf (lead ++ rest)) n (crlf rest)) :
    width (crlf lead) = n := by
  obtain ⟨wide,same,rfl⟩ := there
  rw [crlf_append] at same
  rw [List.append_cancel_right same]

-- What a token between two marks takes up. Where trivia moved its start past its
-- stop, it is empty at the stop. Between the same marks of the wider text lies
-- the same stretch, wider.
theorem Marks.between {text low high : List Char} {a b : Nat} (start : Marks text a low) (stop : Marks text b high) :
    ∃ lead middle, text = lead ++ middle ++ high ∧ width lead = min a b ∧ width (lead ++ middle) = b ∧
      ∀ {a' b'}, Marks (crlf text) a' (crlf low) → Marks (crlf text) b' (crlf high) →
        width (crlf lead) = min a' b' ∧ width (crlf (lead ++ middle)) = b' := by
  obtain ⟨first,rfl,rfl⟩ := start
  obtain ⟨last,same,rfl⟩ := stop
  rcases List.append_eq_append_iff.mp same with ⟨middle,rfl,rfl⟩ | ⟨middle,rfl,rfl⟩
  · refine ⟨first,middle,same,?_,rfl,?_⟩
    · rw [width_append]; omega
    · intro a' b' start stop
      rw [same] at stop
      have low := start.crlf_lead
      have high := stop.crlf_lead
      rw [crlf_append,width_append] at high ⊢
      omega
  · refine ⟨last,[],by rw [List.append_nil]; exact same,?_,by rw [List.append_nil],?_⟩
    · rw [width_append]; omega
    · intro a' b' start stop
      rw [same] at stop
      have low := start.crlf_lead
      have high := stop.crlf_lead
      rw [crlf_append,width_append] at low
      rw [List.append_nil]
      omega

end ContextScan.Text

namespace ContextScan.Source
open Text

structure Follows (text : List Char) (s : Source) (r : Remainder) : Prop where
  valid : Valid text s
  regionless : s.regions = []
  ahead : s.place.ahead = r.ahead
  start : Marks text s.tokenStart r.start
  stop : ∀ offset, s.tokenEnd = some offset → ∃ rest, r.stop = some rest ∧ Marks text offset rest
  content : s.hasContent = r.content

variable {text : List Char} {s : Source} {r : Remainder}

theorem Valid.marks (valid : Valid text s) : Marks text s.place.offset s.place.ahead :=
  ⟨s.place.behind.reverse,valid.held.symm,(width_reverse _).trans valid.sound.symm⟩

theorem follows_simulates (text : List Char) : Simulates (Follows text) := by
  refine ⟨?_,?_,?_,?_,?_⟩
  · intro s r follows
    exact congrArg List.head? follows.ahead
  · intro s r follows
    change s.regions.any (fun region => region.start == s.pos) = false
    rw [follows.regionless]
    rfl
  · intro s r follows _
    refine ⟨advance_valid follows.valid,follows.regionless,?_,follows.start,follows.stop,rfl⟩
    exact (Place.next_ahead s.place).trans (congrArg List.tail follows.ahead)
  · intro s r follows _
    have onward : s.place.next.ahead = r.ahead.tail := (Place.next_ahead s.place).trans (congrArg List.tail follows.ahead)
    refine ⟨skip_valid follows.valid,follows.regionless,onward,?_,follows.stop,follows.content⟩
    have there := (skip_valid follows.valid).marks
    rw [show s.skip.place.ahead = r.ahead.tail from onward] at there
    change Marks text (if s.hasContent then s.tokenStart else s.place.next.offset) (if r.content then r.start else r.ahead.tail)
    rw [follows.content]
    split
    · exact follows.start
    · exact there
  · intro s r follows
    refine ⟨markEnd_valid follows.valid,follows.regionless,follows.ahead,follows.start,?_,follows.content⟩
    intro offset marked
    cases marked
    exact ⟨_,rfl,follows.ahead ▸ follows.valid.marks⟩

theorem startAt_follows {before : List Char} (room : width before < UInt32.size) (after : List Char) :
    Follows (before ++ after) (startAt (before ++ after) (UInt32.ofNat (width before))) ⟨after,after,none,false⟩ := by
  have valid := startAt_valid (before ++ after) (UInt32.ofNat (width before))
  rw [startAt_boundary after room] at valid ⊢
  refine ⟨valid,rfl,rfl,valid.marks,?_,rfl⟩
  intro offset marked
  cases marked

def Pending (s : Source) (lead middle : List Char) : Prop := ∃ span, s.tokenSpan = .ok (some span) ∧
  span.start.toNat = width lead ∧ span.reach = width (lead ++ middle) ∧ s.tokenText = .ok (some middle)

theorem pending_marked {lead middle rest : List Char} (valid : Valid (lead ++ middle ++ rest) s)
    (small : width (lead ++ middle ++ rest) < UInt32.size) {stop : Nat} (marked : s.tokenEnd = some stop)
    (low : width lead = min s.tokenStart stop) (high : width (lead ++ middle) = stop) : Pending s lead middle := by
  have fits := valid.fits small marked
  have ordered := spanStart_le s stop
  have spanned := tokenSpan_marked valid small marked
  have start : spanStart s stop = width lead := low.symm
  have slice := Span.slice_offsets lead middle rest (by rw [← width_append,high]; exact fits)
  rw [← width_append,high,← start] at slice
  refine ⟨_,spanned,?_,?_,?_⟩
  · rw [(Span.ofOffsets_numbers fits ordered).1,start]
  · rw [Span.ofOffsets_reach fits ordered,high]
  · rw [tokenText,spanned,Except.bind]
    dsimp only
    rw [valid.held]
    exact slice

theorem pending_crlf {wide : Source} {stop stop' : Nat} (follows : Follows text s r)
    (other : Follows (crlf text) wide r.crlf) (small : width (crlf text) < UInt32.size)
    (marked : s.tokenEnd = some stop) (also : wide.tokenEnd = some stop') : ∃ lead middle rest,
      text = lead ++ middle ++ rest ∧ Pending s lead middle ∧ Pending wide (crlf lead) (crlf middle) := by
  obtain ⟨high,staked,there⟩ := follows.stop stop marked
  obtain ⟨high',staked',there'⟩ := other.stop stop' also
  have same : high' = crlf high := by simpa [Remainder.crlf,staked] using staked'.symm
  subst same
  obtain ⟨lead,middle,parts,low,reach,widened⟩ := follows.start.between there
  obtain ⟨low',reach'⟩ := widened other.start there'
  have narrow : width text < UInt32.size := Nat.lt_of_le_of_lt (width_le_crlf text) small
  have valid := follows.valid
  have valid' := other.valid
  subst parts
  rw [crlf_append,crlf_append] at valid' small
  rw [crlf_append] at reach'
  exact ⟨lead,middle,high,rfl,pending_marked valid narrow marked low reach,pending_marked valid' small also low' reach'⟩

theorem startAt_marked {offset : UInt32} {valid : TokenSet} {token : Token}
    (taken : (scan valid (startAt text offset)).token = some token) :
    ∃ stop, (scan valid (startAt text offset)).cursor.tokenEnd = some stop := by
  obtain ⟨stop,marked,_⟩ := took_span (startAt_ready text offset []) (accepted_took (scan_accepted taken))
  exact ⟨stop,marked⟩

-- With a carriage return in front of every line feed the same token is taken, and
-- it lies between the same two places.
theorem scan_line_endings (before after : List Char) (small : width (crlf (before ++ after)) < UInt32.size) (valid : TokenSet) :
    let text := before ++ after
    let one := scan valid (startAt text (UInt32.ofNat (width before)))
    let two := scan valid (startAt (crlf text) (UInt32.ofNat (width (crlf before))))
    one.token = two.token ∧ ∀ token, one.token = some token → ∃ lead middle rest,
      text = lead ++ middle ++ rest ∧ Pending one.cursor lead middle ∧
      Pending two.cursor (crlf lead) (crlf middle) := by
  intro text one two
  have room : width (crlf before) < UInt32.size := by
    rw [crlf_append] at small
    exact width_lead small
  have first := startAt_follows (Nat.lt_of_le_of_lt (width_le_crlf before) room) after
  have second := startAt_follows room (crlf after)
  rw [← crlf_append] at second
  have here := (follows_simulates text).scan valid first
  have there := (follows_simulates (crlf text)).scan valid second
  obtain ⟨token,cursor⟩ := Remainder.scan_crlf valid ⟨after,after,none,false⟩
  have same : one.token = two.token := by rw [here.token,there.token]; exact token.symm
  refine ⟨same,?_⟩
  intro taken found
  obtain ⟨_,marked⟩ := startAt_marked found
  obtain ⟨_,also⟩ := startAt_marked (same.symm.trans found)
  exact pending_crlf here.cursor (cursor ▸ there.cursor) small marked also

theorem scan_line_endings_template :
    width (crlf (['\u00e9','\n'] ++ ['a','\n','\x60'])) < UInt32.size ∧
    (scan ⟨2⟩ (startAt ['\u00e9','\r','\n','a','\r','\n','\x60'] 4)).token = some .template ∧
    (scan ⟨2⟩ (startAt ['\u00e9','\r','\n','a','\r','\n','\x60'] 4)).cursor.tokenText = .ok (some ['a','\r','\n']) := by
  have small : width (crlf (['\u00e9','\n'] ++ ['a','\n','\x60'])) < UInt32.size := by decide
  have taken : (scan ⟨2⟩ (startAt ['\u00e9','\n','a','\n','\x60'] 3)).token = some .template := by decide +kernel
  have read : (scan ⟨2⟩ (startAt ['\u00e9','\n','a','\n','\x60'] 3)).cursor.tokenText.toOption = some (some ['a','\n']) := by
    decide +kernel
  obtain ⟨same,spans⟩ := scan_line_endings ['\u00e9','\n'] ['a','\n','\x60'] small ⟨2⟩
  obtain ⟨_,middle,_,_,⟨_,_,_,_,text⟩,⟨_,_,_,_,wide⟩⟩ := spans .template taken
  cases (congrArg Except.toOption text).symm.trans read
  exact ⟨small,same.symm.trans taken,wide⟩

end ContextScan.Source
